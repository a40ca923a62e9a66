import CardClub.Blank
import CardClub.Instant
import CardClub.Instant.Calendar
import CardClub.Numeral

/-!
# Instants in text

An instant is written as a UTC date and time with `Z`, with the fewest of 0, 3, 6 or 9 fraction
digits that are exact; years of other than four digits carry a sign. Readers take any offset of less
than a day, small letters, a blank between date and time, blanks around the numbers, numbers without
leading zeros, and fractions of any length, of which nine digits count.
-/

namespace CardClub.Instant

open Numeral (pad number?)

/-- The fraction of a second, in the fewest of 0, 3, 6 or 9 digits that are exact. -/
def fraction (nanosecond : Nat) : List Char :=
  if nanosecond = 0 then []
  else if nanosecond % 1000000 = 0 then '.' :: pad 3 (nanosecond / 1000000)
  else if nanosecond % 1000 = 0 then '.' :: pad 6 (nanosecond / 1000)
  else '.' :: pad 9 nanosecond

/-- The year: four digits, or a sign and at least four digits. -/
def yearText (year : Int) : List Char :=
  if 0 ≤ year ∧ year ≤ 9999 then pad 4 year.toNat
  else
    let ds := Nat.toDigits 10 year.natAbs
    (if year < 0 then '-' else '+') :: (List.replicate (4 - ds.length) '0' ++ ds)

def toChars (t : Instant) : List Char :=
  let date := Date.ofDays (t.second / 86400)
  let time := (t.second % 86400).toNat
  let leap := t.nanosecond / 1000000000
  yearText date.year ++ '-' :: pad 2 date.month.toNat ++ '-' :: pad 2 date.day.toNat ++
    'T' :: pad 2 (time / 3600) ++ ':' :: pad 2 (time / 60 % 60) ++
    ':' :: pad 2 (time % 60 + leap) ++
    fraction (t.nanosecond % 1000000000) ++ ['Z']

def toText (t : Instant) : String :=
  String.ofList t.toChars

/-- The given character, with blanks before it allowed. -/
def mark? (c : Char) (cs : List Char) : Option (List Char) :=
  match dropBlanks cs with
  | x :: rest => if x = c then some rest else none
  | [] => none

/-- A number of at most two digits in a range, with blanks before it allowed. -/
def field? (least most : Nat) (cs : List Char) : Option (Nat × List Char) :=
  (number? 2 (dropBlanks cs)).bind fun (n, rest) =>
    if least ≤ n ∧ n ≤ most then some (n, rest) else none

/-- A year: up to four digits, or a sign and any number of digits. -/
def year? (cs : List Char) : Option (Int × List Char) :=
  let found : Option (Int × List Char) := match dropBlanks cs with
    | '-' :: cs => (number? cs.length cs).map fun (n, rest) => (-(n : Int), rest)
    | '+' :: cs => (number? cs.length cs).map fun (n, rest) => ((n : Int), rest)
    | cs => (number? 4 cs).map fun (n, rest) => ((n : Int), rest)
  found.bind fun (y, rest) => if -262143 ≤ y ∧ y ≤ 262142 then some (y, rest) else none

/-- The nanoseconds of an optional fraction. Digits after the ninth do not count. -/
def fraction? : List Char → Option (Nat × List Char)
  | '.' :: cs =>
    match Numeral.takeDigits 9 cs with
    | ([], _) => none
    | (ds, rest) =>
      some (Numeral.value 10 ds * tenPow (9 - ds.length), rest.dropWhile Char.isDigit)
  | cs => some (0, cs)

def twoDigits? : List Char → Option (Nat × List Char)
  | a :: b :: rest =>
    (Numeral.decimalDigit? a).bind fun tens =>
      (Numeral.decimalDigit? b).map fun ones => (10 * tens + ones, rest)
  | _ => none

/-- An offset from UTC in seconds: `Z`, `UTC`, or a sign with hours and minutes. -/
def offset? : List Char → Option (Int × List Char)
  | [] => none
  | c :: cs =>
    if c = 'Z' ∨ c = 'z' then some (0, cs)
    else if (c :: cs.take 2).map Char.toLower = ['u', 't', 'c'] then some (0, cs.drop 2)
    else if c = '+' ∨ c = '-' ∨ c = '\u2212' then
      (twoDigits? cs).bind fun (hours, rest) =>
        (twoDigits? (rest.dropWhile fun c => c == ':' || isBlank c)).bind fun (minutes, rest) =>
          if hours ≤ 23 ∧ minutes ≤ 59 then
            let seconds : Int := 3600 * hours + 60 * minutes
            some (if c = '+' then seconds else -seconds, rest)
          else none
    else none

def date? (cs : List Char) : Option (Date × List Char) := do
  let (year, cs) ← year? cs
  let cs ← mark? '-' cs
  let (month, cs) ← field? 1 12 cs
  let cs ← mark? '-' cs
  let (day, cs) ← field? 1 31 cs
  let date : Date := ⟨year, month, day⟩
  if date.isValid then some (date, cs) else none

/-- A time of day at the front of a text: its second of the day and its nanoseconds. The second 60
is the leap second after the second 59. -/
def time? (cs : List Char) : Option (Nat × Nat × List Char) := do
  let (hour, cs) ← field? 0 23 cs
  let cs ← mark? ':' cs
  let (minute, cs) ← field? 0 59 cs
  let cs ← mark? ':' cs
  let (second, cs) ← field? 0 60 cs
  let (nanosecond, cs) ← fraction? cs
  if second = 60 then some (3600 * hour + 60 * minute + 59, 1000000000 + nanosecond, cs)
  else some (3600 * hour + 60 * minute + second, nanosecond, cs)

def ofChars? (cs : List Char) : Option Instant := do
  let (date, cs) ← date? cs
  match cs with
  | c :: cs =>
    if c = 'T' ∨ c = 't' ∨ c = ' ' then
      let (second, nanosecond, cs) ← time? cs
      let (offset, cs) ← offset? (dropBlanks cs)
      if (dropBlanks cs).isEmpty then
        ofParts? (date.toDays * 86400 + second - offset) nanosecond
      else none
    else none
  | [] => none

def ofText? (s : String) : Option Instant :=
  ofChars? s.toList

end CardClub.Instant
