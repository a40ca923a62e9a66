import CardClub.Instant.Text
import CardClub.Proofs.Calendar
import CardClub.Proofs.Numerals

/-!
# Instants are read back

The written form of an instant is read part by part: the year up to the hyphen behind it, numbers of
two digits, the fraction in whichever of its four lengths it was written, and the offset of nothing.
The sixtieth second of a minute tells a leap second.
-/

namespace CardClub

open Numeral

theorem dropBlanks_cons {c : Char} {cs : List Char} (h : isBlank c = false) :
    dropBlanks (c :: cs) = c :: cs := by
  simp [dropBlanks, h]

theorem isBlank_digitChar : ∀ d < 10, isBlank (Nat.digitChar d) = false := by decide

theorem dropBlanks_pad {w n : Nat} (hw : 0 < w) (cs : List Char) :
    dropBlanks (pad w n ++ cs) = pad w n ++ cs := by
  obtain ⟨k, rfl⟩ := Nat.exists_eq_succ_of_ne_zero (Nat.ne_of_gt hw)
  obtain ⟨d, hd, rest, hpad⟩ := pad_succ_cons k n
  rw [hpad]
  exact dropBlanks_cons (isBlank_digitChar d hd)

namespace Instant

variable {c : Char} {cs : List Char} {n : Nat} {year : Int}

theorem mark?_cons (h : isBlank c = false) : mark? c (c :: cs) = some cs := by
  rw [mark?, dropBlanks_cons h]
  exact if_pos rfl

theorem field?_pad {least most : Nat} (hleast : least ≤ n) (hmost : n ≤ most) (hn : n < 100) :
    field? least most (pad 2 n ++ cs) = some (n, cs) := by
  rw [field?, dropBlanks_pad (by decide), number?_pad (by decide) hn, Option.bind_some]
  exact if_pos ⟨hleast, hmost⟩

/-! ## Years -/

/-- A year of other than four digits is a numeral behind a sign. -/
theorem yearText_signed (h : ¬ (0 ≤ year ∧ year ≤ 9999)) :
    yearText year = (if year < 0 then '-' else '+') ::
      pad (max 4 (Nat.toDigits 10 year.natAbs).length) year.natAbs := by
  rw [yearText, if_neg h]
  dsimp only
  rw [filled_eq_pad]

theorem stops_hyphen (cs : List Char) : Stops ('-' :: cs) := by
  intro c hc
  obtain rfl := Option.some.inj hc
  rfl

theorem number?_signed (n : Nat) (cs : List Char) :
    number? (pad (max 4 (Nat.toDigits 10 n).length) n ++ '-' :: cs).length
      (pad (max 4 (Nat.toDigits 10 n).length) n ++ '-' :: cs) = some (n, '-' :: cs) := by
  have hlt : n < tenPow (max 4 (Nat.toDigits 10 n).length) :=
    Nat.lt_of_lt_of_le (lt_tenPow_length n)
      (Nat.pow_le_pow_right (by decide) (Nat.le_max_right _ _))
  have hwidth : 0 < max 4 (Nat.toDigits 10 n).length := by omega
  refine number?_pad_stops hwidth hlt ?_ (stops_hyphen cs)
  rw [List.length_append, length_pad]
  omega

theorem year?_unsigned {rest : List Char} (hblank : isBlank c = false) (hminus : c ≠ '-')
    (hplus : c ≠ '+') (hn : number? 4 (c :: cs) = some (n, rest)) (hlast : n ≤ 262142) :
    year? (c :: cs) = some ((n : Int), rest) := by
  rw [year?, dropBlanks_cons hblank]
  split
  · next h => exact absurd (List.cons.inj h).1 hminus
  · next h => exact absurd (List.cons.inj h).1 hplus
  · rw [hn, Option.map_some, Option.bind_some]
    exact if_pos ⟨by omega, by omega⟩

theorem year?_minus {rest : List Char} (hn : number? cs.length cs = some (n, rest))
    (hfirst : n ≤ 262143) : year? ('-' :: cs) = some (-(n : Int), rest) := by
  rw [year?, dropBlanks_cons rfl]
  simp only [hn, Option.map_some, Option.bind_some]
  exact if_pos ⟨by omega, by omega⟩

theorem year?_plus {rest : List Char} (hn : number? cs.length cs = some (n, rest))
    (hlast : n ≤ 262142) : year? ('+' :: cs) = some ((n : Int), rest) := by
  rw [year?, dropBlanks_cons rfl]
  simp only [hn, Option.map_some, Option.bind_some]
  exact if_pos ⟨by omega, by omega⟩

theorem year?_yearText (hfirst : -262143 ≤ year) (hlast : year ≤ 262142) (cs : List Char) :
    year? (yearText year ++ '-' :: cs) = some (year, '-' :: cs) := by
  by_cases hfour : 0 ≤ year ∧ year ≤ 9999
  · have hlt : year.toNat < tenPow 4 := by
      have hpow : tenPow 4 = 10000 := rfl
      omega
    have hnumber := number?_pad (by decide) hlt ('-' :: cs)
    obtain ⟨d, hd, rest, hpad⟩ := pad_succ_cons 3 year.toNat
    obtain ⟨hminus, hplus⟩ := digitChar_ne_sign d hd
    rw [yearText, if_pos hfour]
    rw [hpad] at hnumber ⊢
    have hyear := year?_unsigned (isBlank_digitChar d hd) hminus hplus hnumber (by omega)
    rwa [Int.toNat_of_nonneg hfour.1] at hyear
  · rw [yearText_signed hfour]
    have hnumber := number?_signed year.natAbs cs
    by_cases hneg : year < 0
    · have hyear := year?_minus hnumber (by omega)
      rw [if_pos hneg, List.cons_append, hyear, (by omega : -(year.natAbs : Int) = year)]
    · have hyear := year?_plus hnumber (by omega)
      rw [if_neg hneg, List.cons_append, hyear, (by omega : (year.natAbs : Int) = year)]

/-! ## Fractions -/

theorem stops_zulu : Stops ['Z'] := by
  intro c hc
  obtain rfl := Option.some.inj hc
  rfl

theorem fraction?_pad {w : Nat} (hw : 0 < w) (hnine : w ≤ 9) (hn : n < tenPow w) :
    fraction? ('.' :: pad w n ++ ['Z']) = some (n * tenPow (9 - w), ['Z']) := by
  have hne : digits 10 w n ≠ [] := digits_ne_nil hw
  have hvalue : value 10 (digits 10 w n) = n := value_digits_of_lt hn
  have hlength := length_digits 10 w n
  rw [List.cons_append, fraction?, takeDigits_pad hnine stops_zulu]
  generalize digits 10 w n = ds at hne hvalue hlength
  cases ds with
  | nil => exact absurd rfl hne
  | cons d ds =>
      simp only [hvalue, hlength]
      rfl

theorem fraction?_fraction (hn : n < 1000000000) :
    fraction? (fraction n ++ ['Z']) = some (n, ['Z']) := by
  have hpow : tenPow 3 = 1000 ∧ tenPow 6 = 1000000 ∧ tenPow 9 = 1000000000 := by decide
  obtain ⟨hthree, hsix, hnine⟩ := hpow
  unfold fraction
  split
  · next hzero => rw [hzero]; rfl
  · split
    · next hmillis =>
      rw [fraction?_pad (by decide) (by decide) (by omega)]
      have hexact : n / 1000000 * tenPow (9 - 3) = n := by
        rw [hsix]
        omega
      rw [hexact]
    · split
      · next hmicros =>
        rw [fraction?_pad (by decide) (by decide) (by omega)]
        have hexact : n / 1000 * tenPow (9 - 6) = n := by
          rw [hthree]
          omega
        rw [hexact]
      · rw [fraction?_pad (by decide) (by decide) (by omega), Nat.sub_self, tenPow_zero,
          Nat.mul_one]

/-! ## Dates and times -/

/-- A date as it is written. -/
def dateText (date : Date) : List Char :=
  yearText date.year ++ '-' :: pad 2 date.month.toNat ++ '-' :: pad 2 date.day.toNat

/-- A time of day as it is written, without the offset. -/
def timeText (time leap nanosecond : Nat) : List Char :=
  pad 2 (time / 3600) ++ ':' :: pad 2 (time / 60 % 60) ++ ':' :: pad 2 (time % 60 + leap) ++
    fraction nanosecond

theorem date?_dateText {date : Date} (hfirst : -262143 ≤ date.year) (hlast : date.year ≤ 262142)
    (hvalid : date.isValid = true) (hday : date.day ≤ 31) (cs : List Char) :
    date? (dateText date ++ cs) = some (date, cs) := by
  obtain ⟨hm1, hm12, hd1, -⟩ := of_decide_eq_true hvalid
  have hmonth : (date.month.toNat : Int) = date.month := Int.toNat_of_nonneg (by omega)
  have hdate : (date.day.toNat : Int) = date.day := Int.toNat_of_nonneg (by omega)
  have htext : dateText date ++ cs = yearText date.year ++ '-' :: (pad 2 date.month.toNat ++
      '-' :: (pad 2 date.day.toNat ++ cs)) := by
    simp [dateText]
  rw [htext, date?, year?_yearText hfirst hlast]
  simp only [Option.bind_eq_bind, Option.bind_some, mark?_cons (c := '-') rfl]
  rw [field?_pad (by omega) (by omega) (by omega)]
  simp only [Option.bind_some, mark?_cons (c := '-') rfl]
  rw [field?_pad (by omega) (by omega) (by omega)]
  simp only [Option.bind_some, hmonth, hdate]
  exact if_pos hvalid

theorem time?_timeText {time leap nanosecond : Nat} (htime : time < 86400)
    (hleap : leap = 0 ∨ leap = 1 ∧ time % 60 = 59) (hnanosecond : nanosecond < 1000000000) :
    time? (timeText time leap nanosecond ++ ['Z']) =
      some (time, leap * 1000000000 + nanosecond, ['Z']) := by
  have htext : timeText time leap nanosecond ++ ['Z'] = pad 2 (time / 3600) ++ ':' ::
      (pad 2 (time / 60 % 60) ++ ':' :: (pad 2 (time % 60 + leap) ++
        (fraction nanosecond ++ ['Z']))) := by
    simp [timeText]
  rw [htext, time?, field?_pad (by omega) (by omega) (by omega)]
  simp only [Option.bind_eq_bind, Option.bind_some, mark?_cons (c := ':') rfl]
  rw [field?_pad (by omega) (by omega) (by omega)]
  simp only [Option.bind_some, mark?_cons (c := ':') rfl]
  rw [field?_pad (by omega) (by omega) (by omega)]
  simp only [Option.bind_some, fraction?_fraction hnanosecond]
  rcases hleap with rfl | ⟨rfl, hlast⟩
  · have hsum : 3600 * (time / 3600) + 60 * (time / 60 % 60) + (time % 60 + 0) = time := by omega
    rw [if_neg (by omega), hsum, Nat.zero_mul, Nat.zero_add]
  · have hsum : 3600 * (time / 3600) + 60 * (time / 60 % 60) + 59 = time := by omega
    rw [if_pos (by omega), hsum, Nat.one_mul]

theorem toChars_eq (t : Instant) :
    t.toChars = dateText (Date.ofDays (t.second / 86400)) ++ 'T' ::
      (timeText (t.second % 86400).toNat (t.nanosecond / 1000000000) (t.nanosecond % 1000000000) ++
        ['Z']) := by
  simp [toChars, dateText, timeText]

theorem offset?_zulu : offset? (dropBlanks ['Z']) = some (0, []) := rfl

/-- The written form of an instant is read as the instant. -/
theorem ofText?_toText (t : Instant) : ofText? t.toText = some t := by
  have hge := t.second_ge
  have hle := t.second_le
  have hnano := t.nanosecond_lt
  have hdays : -96465292 ≤ t.second / 86400 ∧ t.second / 86400 ≤ 95026236 := by omega
  obtain ⟨hfirst, hlast⟩ := Date.year_ofDays hdays.1 hdays.2
  obtain ⟨-, -, -, hmonth⟩ := Date.valid_ofDays (t.second / 86400)
  have hleap : t.nanosecond / 1000000000 = 0 ∨
      t.nanosecond / 1000000000 = 1 ∧ (t.second % 86400).toNat % 60 = 59 := by
    by_cases hlate : 1000000000 ≤ t.nanosecond
    · have hminute := t.leap hlate
      omega
    · omega
  have hdate := date?_dateText hfirst hlast (Date.isValid_ofDays _) hmonth
  have hday : (t.second % 86400).toNat < 86400 := by omega
  have htime := time?_timeText hday hleap (Nat.mod_lt t.nanosecond (by decide))
  have hsecond : t.second / 86400 * 86400 + ((t.second % 86400).toNat : Int) - 0 = t.second := by
    omega
  rw [ofText?, toText, String.toList_ofList, toChars_eq, ofChars?, hdate]
  simp only [Option.bind_eq_bind, Option.bind_some, true_or, if_true, htime]
  rw [Date.toDays_ofDays, Nat.div_add_mod']
  rw [offset?_zulu, Option.bind_some]
  simp only [hsecond]
  exact t.ofParts?_self

end Instant

end CardClub
