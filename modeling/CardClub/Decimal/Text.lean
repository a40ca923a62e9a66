import CardClub.Decimal
import CardClub.Numeral
import CardClub.Range

/-!
# Decimals in text

A decimal is written with exactly as many fraction digits as its scale says and never with an
exponent. Readers take an optional sign, digits with an optional point and underscores after the
first digit. Fraction digits beyond the room of a decimal are rounded at the first of them, where a
five or more rounds up; only digits and underscores may follow it, and they do not count. A text
that is no such numeral may still be one with a power of ten behind it.
-/

namespace CardClub.Decimal

/-- The digits of a magnitude, padded so that at least one stands before the point. -/
def paddedDigits (magnitude scale : Nat) : List Char :=
  let ds := Nat.toDigits 10 magnitude
  List.replicate (scale + 1 - ds.length) '0' ++ ds

def toChars (d : Decimal) : List Char :=
  let ds := paddedDigits d.magnitude d.scale
  let whole := ds.length - d.scale
  (if d.negative then ['-'] else []) ++ ds.take whole ++
    (if d.scale = 0 then [] else '.' :: ds.drop whole)

def toText (d : Decimal) : String :=
  String.ofList d.toChars

/-- What has been read of a numeral: its digits so far as a number, how many stand after the point,
whether the point has come, and whether any digit has. -/
structure Reading where
  magnitude : Nat
  scale : Nat
  pointed : Bool
  started : Bool

/-- A numeral is read in a narrow way as long as its digits are below this limit, a little less than
a tenth of what 64 bits hold. -/
def narrowLimit : Nat := (Nat.pow 2 64 - 1) / 10 - 255

/-- The numeral ends where its digits no longer fit: the next digit rounds what has been read. Of
what follows it only digits and underscores are allowed. -/
def roundOff (negative : Bool) (p : Reading) (digit : Nat) (rest : List Char) : Option Decimal :=
  if rest.all fun c => c.isDigit || c == '_' then
    let up := if 5 ≤ digit then p.magnitude + 1 else p.magnitude
    if up < coefficientLimit then ofParts? (signed negative up) p.scale
    else if p.scale = 0 then none
    else ofParts? (signed negative ((up + 4) / 10)) (p.scale - 1)
  else none

/-- Reads the rest of a numeral. An underscore is passed over, but behind a fraction that fills its
room it counts as a zero if the digits before the last one were read in the narrow way. -/
def readFrom (negative : Bool) (p : Reading) : List Char → Option Decimal
  | [] => if p.started then ofParts? (signed negative p.magnitude) p.scale else none
  | c :: cs =>
    let full := p.pointed && decide (28 ≤ p.scale)
    match Numeral.decimalDigit? c with
    | some d =>
      let longer := p.magnitude * 10 + d
      if longer < coefficientLimit && !full then
        readFrom negative ⟨longer, if p.pointed then p.scale + 1 else 0, p.pointed, true⟩ cs
      else if p.pointed then roundOff negative p d cs
      else none
    | none =>
      if c = '.' && !p.pointed then readFrom negative { p with pointed := true } cs
      else if c = '_' && p.started then
        if full && decide (p.magnitude / 10 < narrowLimit) then roundOff negative p 0 cs
        else readFrom negative p cs
      else none

def ofNumeral? : List Char → Option Decimal
  | '-' :: cs => readFrom true ⟨0, 0, false, false⟩ cs
  | '+' :: cs => readFrom false ⟨0, 0, false, false⟩ cs
  | cs => readFrom false ⟨0, 0, false, false⟩ cs

def trim (coefficient : Int) : (scale : Nat) → Int × Nat
  | 0 => (coefficient, 0)
  | scale + 1 =>
    if coefficient % 10 = 0 then trim (coefficient / 10) scale else (coefficient, scale + 1)

/-- Drops the last digits of a magnitude, rounding a half up. -/
def dropDigits (magnitude count : Nat) : Nat := (magnitude + tenPow count / 2) / tenPow count

/-- Divides a decimal by a power of ten. Fraction digits beyond the room of a decimal are dropped,
and the sign is kept even if nothing else is left. -/
def shiftDown? (d : Decimal) (power : Nat) : Option Decimal :=
  ofSigned? d.negative (dropDigits d.magnitude (d.scale + power - 28)) (min (d.scale + power) 28)

def shift? (d : Decimal) (down : Bool) (power : Nat) : Option Decimal :=
  if down then (if power ≤ 28 then d.shiftDown? power else none)
  else if power ≤ d.scale then ofParts? d.coefficient (d.scale - power)
  else if power ≤ 28 then
    (ofExact? (d.coefficient * tenPow power) d.scale).bind fun r =>
      let (coefficient, scale) := trim r.coefficient r.scale
      ofParts? coefficient scale
  else none

/-- The power of ten behind a numeral: digits after an optional minus or plus sign. -/
def power? (cs : List Char) : Option (Bool × Nat) :=
  let (down, ds) := match cs with
    | '-' :: '+' :: ds => (true, ds)
    | '-' :: ds => (true, ds)
    | '+' :: ds => (false, ds)
    | ds => (false, ds)
  match Numeral.takeDigits ds.length ds with
  | ([], _) => none
  | (n, []) => if Numeral.value 10 n < countLimit then some (down, Numeral.value 10 n) else none
  | (_, _ :: _) => none

def ofChars? (cs : List Char) : Option Decimal :=
  match ofNumeral? cs with
  | some d => some d
  | none =>
    match cs.span fun c => c != 'e' && c != 'E' with
    | (_, []) => none
    | (head, _ :: tail) =>
      (ofNumeral? head).bind fun d => (power? tail).bind fun (down, n) => d.shift? down n

def ofText? (s : String) : Option Decimal :=
  ofChars? s.toList

end CardClub.Decimal
