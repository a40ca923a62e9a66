import CardClub.Decimal.Text
import CardClub.Proofs.Award
import CardClub.Proofs.Numerals

/-!
# Decimals are read back

A decimal is written as a sign, the numeral of its whole part and, behind a point, the numeral of
its fraction. Reading passes over both and is left with all digits as one number, which is the
magnitude. Only the sign of a zero is lost.
-/

namespace CardClub.Decimal

open Numeral

/-- The decimal without a sign if it is zero. -/
def unsigned (d : Decimal) : Decimal := if d.isZero then { d with negative := false } else d

/-- A decimal that is no zero with a sign. -/
def Plain (d : Decimal) : Prop := d.isZero = true → d.negative = false

variable {d : Decimal} {negative : Bool} {p : Reading} {ds : List Nat} {cs : List Char}

theorem unsigned_of_plain (h : d.Plain) : d.unsigned = d := by
  unfold unsigned
  split
  · next hzero => rw [← h hzero]
  · rfl

theorem ofParts?_signed (d : Decimal) :
    ofParts? (signed d.negative d.magnitude) d.scale = some d.unsigned := by
  change ofParts? d.coefficient d.scale = some d.unsigned
  unfold unsigned
  split
  · next hzero =>
    have hmag : d.magnitude = 0 := by simpa [isZero] using hzero
    have hcoef : d.coefficient = 0 := Int.natAbs_eq_zero.mp (hmag ▸ natAbs_coefficient d)
    rw [hcoef, ofParts?, ofSigned?, dif_pos ⟨by decide, d.scale_le⟩]
    simp [hmag]
  · next hzero => exact ofParts?_self (by simpa using hzero)

/-! ## The written form -/

theorem paddedDigits_eq (magnitude scale : Nat) :
    paddedDigits magnitude scale =
      pad (max (scale + 1) (Nat.toDigits 10 magnitude).length) magnitude :=
  filled_eq_pad (scale + 1) magnitude

/-- The whole part of a decimal. -/
def whole (d : Decimal) : Nat := d.magnitude / tenPow d.scale

/-- The number of digits before the point, less one. -/
def wholeDigits (d : Decimal) : Nat :=
  max (d.scale + 1) (Nat.toDigits 10 d.magnitude).length - d.scale - 1

theorem whole_lt (d : Decimal) : d.whole < tenPow (d.wholeDigits + 1) := by
  have hwidth : (Nat.toDigits 10 d.magnitude).length ≤ d.scale + (d.wholeDigits + 1) := by
    rw [wholeDigits]
    omega
  apply Nat.div_lt_of_lt_mul
  rw [← tenPow_add]
  exact Nat.lt_of_lt_of_le (lt_tenPow_length d.magnitude)
    (Nat.pow_le_pow_right (by decide) hwidth)

theorem toChars_eq (d : Decimal) :
    d.toChars = (if d.negative then ['-'] else []) ++ pad (d.wholeDigits + 1) d.whole ++
      if d.scale = 0 then [] else '.' :: pad d.scale d.magnitude := by
  have hwidth : max (d.scale + 1) (Nat.toDigits 10 d.magnitude).length =
      d.wholeDigits + 1 + d.scale := by
    rw [wholeDigits]
    omega
  have hlength : (pad (d.wholeDigits + 1) d.whole).length =
      d.wholeDigits + 1 + d.scale - d.scale := by
    rw [length_pad]
    omega
  rw [toChars, paddedDigits_eq, hwidth, length_pad, pad_add, ← whole, List.take_left' hlength,
    List.drop_left' hlength]

/-! ## Passing over digits -/

/-- What has been read when one more digit has. -/
def Reading.digit (p : Reading) (d : Nat) : Reading :=
  ⟨p.magnitude * 10 + d, if p.pointed then p.scale + 1 else 0, p.pointed, true⟩

theorem le_foldl (ds : List Nat) (n : Nat) : n ≤ ds.foldl (fun n d => n * 10 + d) n := by
  induction ds generalizing n with
  | nil => exact Nat.le_refl n
  | cons d ds ih => exact Nat.le_trans (by omega) (ih (n * 10 + d))

theorem foldl_digit (hds : ds ≠ []) : ds.foldl Reading.digit p =
    ⟨ds.foldl (fun n d => n * 10 + d) p.magnitude,
      if p.pointed then p.scale + ds.length else 0, p.pointed, true⟩ := by
  induction ds generalizing p with
  | nil => exact absurd rfl hds
  | cons d ds ih =>
      rw [List.foldl_cons]
      by_cases hnil : ds = []
      · subst hnil
        rfl
      · rw [ih hnil]
        by_cases hpoint : p.pointed = true
        · simp [Reading.digit, hpoint]
          omega
        · simp [Reading.digit, hpoint]

theorem readFrom_digit {d : Nat} (hd : d < 10) (hroom : p.pointed = true → p.scale < 28)
    (hfits : p.magnitude * 10 + d < coefficientLimit) :
    readFrom negative p (Nat.digitChar d :: cs) = readFrom negative (p.digit d) cs := by
  have hfull : (p.pointed && decide (28 ≤ p.scale)) = false := by
    rw [Bool.and_eq_false_imp]
    exact fun hpoint => decide_eq_false (Nat.not_le_of_lt (hroom hpoint))
  rw [readFrom, decimalDigit?_digitChar d hd]
  simp only [hfull, decide_eq_true hfits, Bool.not_false, Bool.and_true, if_true]
  rfl

/-- Reading passes over digits as long as there is room for them. -/
theorem readFrom_digits (hds : ∀ d ∈ ds, d < 10)
    (hroom : p.pointed = true → p.scale + ds.length ≤ 28)
    (hfits : ds.foldl (fun n d => n * 10 + d) p.magnitude < coefficientLimit) :
    readFrom negative p (ds.map Nat.digitChar ++ cs) =
      readFrom negative (ds.foldl Reading.digit p) cs := by
  induction ds generalizing p with
  | nil => rfl
  | cons d ds ih =>
      obtain ⟨hd, hds⟩ := List.forall_mem_cons.mp hds
      rw [List.foldl_cons] at hfits
      have hnext : p.magnitude * 10 + d < coefficientLimit :=
        Nat.lt_of_le_of_lt (le_foldl ds _) hfits
      rw [List.length_cons] at hroom
      have hplace : p.pointed = true → p.scale < 28 := by
        intro hpoint
        have hall := hroom hpoint
        omega
      rw [List.map_cons, List.cons_append, List.foldl_cons, readFrom_digit hd hplace hnext]
      refine ih hds (fun hpoint => ?_) hfits
      have hall := hroom hpoint
      have hscale : (p.digit d).scale = p.scale + 1 := if_pos hpoint
      omega

/-- Reading the numeral of a number behind another one. -/
theorem readFrom_pad {w n before all : Nat} (hw : 0 < w) (hp : p.magnitude = before)
    (hall : (digits 10 w n).foldl (fun n d => n * 10 + d) before = all)
    (hfits : all < coefficientLimit) (hroom : p.pointed = true → p.scale + w ≤ 28) :
    readFrom negative p (pad w n ++ cs) =
      readFrom negative ⟨all, if p.pointed then p.scale + w else 0, p.pointed, true⟩ cs := by
  have hds : ∀ d ∈ digits 10 w n, d < 10 := fun _ hd => mem_digits_lt (by decide) hd
  rw [← hp] at hall
  rw [pad, readFrom_digits hds, foldl_digit (digits_ne_nil hw), hall, length_digits]
  · rwa [length_digits]
  · rwa [hall]

theorem readFrom_toChars (d : Decimal) :
    readFrom negative ⟨0, 0, false, false⟩
      (pad (d.wholeDigits + 1) d.whole ++
        if d.scale = 0 then [] else '.' :: pad d.scale d.magnitude) =
      ofParts? (signed negative d.magnitude) d.scale := by
  have hwhole : Numeral.value 10 (digits 10 (d.wholeDigits + 1) d.whole) = d.whole :=
    value_digits_of_lt d.whole_lt
  have hle : d.whole ≤ d.magnitude := Nat.div_le_self _ _
  have hread := @readFrom_pad negative ⟨0, 0, false, false⟩
    (if d.scale = 0 then [] else '.' :: pad d.scale d.magnitude) _ _ 0 d.whole
    (Nat.succ_pos d.wholeDigits) rfl hwhole (Nat.lt_of_le_of_lt hle d.magnitude_lt) (by simp)
  rw [hread]
  by_cases hscale : d.scale = 0
  · have hall : d.whole = d.magnitude := by
      rw [whole, hscale, tenPow_zero, Nat.div_one]
    rw [if_pos hscale, readFrom, hall, hscale]
    rfl
  · have hfraction := @readFrom_pad negative ⟨d.whole, 0, true, true⟩ [] d.scale d.magnitude
      d.whole d.magnitude (Nat.pos_of_ne_zero hscale) rfl (foldl_digits d.scale d.magnitude)
      d.magnitude_lt fun _ => by simpa using d.scale_le
    rw [if_neg hscale, readFrom]
    simp only [List.append_nil] at hfraction
    simp [hfraction, readFrom, decimalDigit?]

theorem ofNumeral?_cons {c : Char} (hminus : c ≠ '-') (hplus : c ≠ '+') :
    ofNumeral? (c :: cs) = readFrom false ⟨0, 0, false, false⟩ (c :: cs) := by
  unfold ofNumeral?
  split
  · next h => exact absurd (List.cons.inj h).1 hminus
  · next h => exact absurd (List.cons.inj h).1 hplus
  · rfl

theorem ofNumeral?_toChars (d : Decimal) : ofNumeral? d.toChars = some d.unsigned := by
  rw [toChars_eq, ← ofParts?_signed, ← readFrom_toChars]
  cases d.negative with
  | true => rfl
  | false =>
      obtain ⟨c, hc, cs, hcs⟩ := pad_succ_cons d.wholeDigits d.whole
      obtain ⟨hminus, hplus⟩ := digitChar_ne_sign c hc
      rw [hcs]
      exact ofNumeral?_cons hminus hplus

/-- The written form of a decimal is read as the decimal, without a sign if it is zero. -/
theorem ofText?_toText (d : Decimal) : ofText? d.toText = some d.unsigned := by
  rw [ofText?, toText, String.toList_ofList, ofChars?, ofNumeral?_toChars]

end CardClub.Decimal
