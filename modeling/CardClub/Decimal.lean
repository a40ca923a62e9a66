import CardClub.Numeral

/-!
# Decimal numbers

A decimal has a sign, a magnitude below 2^96 and a scale from 0 to 28, the number of its fraction
digits. Its coefficient is the magnitude with the sign. A zero may have a sign too, which shows only
where it is written. Products and sums are computed exactly and then brought back into range by
dropping the fewest digits that make room, with a single rounding whose ties go to the even
neighbour; their zeros have no sign. Comparisons look at the value alone, so that 1.5 and 1.50 are
equal as numbers though they are written differently.
-/

namespace CardClub

/-- The quotient of two numbers rounded to the nearest whole number, ties to the even one. -/
def roundDiv (n d : Nat) : Nat :=
  if 2 * (n % d) < d then n / d
  else if d < 2 * (n % d) then n / d + 1
  else n / d + n / d % 2

@[simp] theorem roundDiv_one (n : Nat) : roundDiv n 1 = n := by
  simp [roundDiv, Nat.mod_one]

def signed (negative : Bool) (m : Nat) : Int :=
  if negative then -(m : Int) else m

@[simp] theorem natAbs_signed (negative : Bool) (m : Nat) : (signed negative m).natAbs = m := by
  cases negative <;> simp [signed]

theorem signed_natAbs (n : Int) : signed (decide (n < 0)) n.natAbs = n := by
  unfold signed
  by_cases h : n < 0
  · rw [if_pos (decide_eq_true h)]
    omega
  · rw [if_neg fun hd => h (of_decide_eq_true hd)]
    omega

/-- Coefficients of decimals are below this limit in size. -/
def coefficientLimit : Nat := Nat.pow 2 96

/-- A decimal number of at most 96 bits of magnitude and 28 fraction digits. -/
structure Decimal where
  /-- Whether a minus sign is written. -/
  negative : Bool
  /-- The number without its sign and its decimal point. -/
  magnitude : Nat
  /-- The number of fraction digits. -/
  scale : Nat
  magnitude_lt : magnitude < coefficientLimit
  scale_le : scale ≤ 28
deriving DecidableEq

namespace Decimal

def coefficient (d : Decimal) : Int := signed d.negative d.magnitude

@[simp] theorem natAbs_coefficient (d : Decimal) : d.coefficient.natAbs = d.magnitude :=
  natAbs_signed d.negative d.magnitude

def value (d : Decimal) : Rat := mkRat d.coefficient (tenPow d.scale)

/-- The decimal with a given sign, magnitude and scale, when they are in range. -/
def ofSigned? (negative : Bool) (magnitude scale : Nat) : Option Decimal :=
  if h : magnitude < coefficientLimit ∧ scale ≤ 28 then some ⟨negative, magnitude, scale, h.1, h.2⟩
  else none

/-- The decimal with a given coefficient and scale, when both are in range. A zero has no sign. -/
def ofParts? (coefficient : Int) (scale : Nat) : Option Decimal :=
  ofSigned? (decide (coefficient < 0)) coefficient.natAbs scale

def zero : Decimal := ⟨false, 0, 0, by decide, by decide⟩

def one : Decimal := ⟨false, 1, 0, by decide, by decide⟩

instance : Inhabited Decimal := ⟨zero⟩

/-- Whether the number is zero, whatever its scale. -/
def isZero (d : Decimal) : Bool := d.magnitude == 0

/-- Whether the number is below zero, as a zero with a sign is not. -/
def isNegative (d : Decimal) : Bool := decide (d.coefficient < 0)

def sameValue (a b : Decimal) : Bool :=
  a.coefficient * tenPow b.scale == b.coefficient * tenPow a.scale

/-- Drops at least `drop` digits of a magnitude whose scale is `drop + keep`, and of the `keep`
further ones only as many as are needed for the rounded rest to fit. -/
def fit (negative : Bool) (magnitude drop : Nat) : (keep : Nat) → Option Decimal
  | 0 => ofParts? (signed negative (roundDiv magnitude (tenPow drop))) 0
  | keep + 1 =>
    if roundDiv magnitude (tenPow drop) < coefficientLimit then
      ofParts? (signed negative (roundDiv magnitude (tenPow drop))) (keep + 1)
    else fit negative magnitude (drop + 1) keep

/-- The decimal closest to an exact number with as many of its fraction digits as there is room for.
There is none when not even the whole number fits. -/
def ofExact? (coefficient : Int) (scale : Nat) : Option Decimal :=
  fit (decide (coefficient < 0)) coefficient.natAbs (scale - 28) (min scale 28)

/-- The product with a whole number, if it fits. -/
def times? (d : Decimal) (n : Nat) : Option Decimal :=
  ofExact? (d.coefficient * n) d.scale

/-- The sum with the larger of the two scales, if it fits. A zero leaves the other one as it is. -/
def add? (a b : Decimal) : Option Decimal :=
  if a.isZero then some b
  else if b.isZero then some a
  else
    let scale := max a.scale b.scale
    ofExact?
      (a.coefficient * tenPow (scale - a.scale) + b.coefficient * tenPow (scale - b.scale)) scale

/-- The nearest whole number, ties to the even one. -/
def roundWhole (d : Decimal) : Int := signed d.negative (roundDiv d.magnitude (tenPow d.scale))

@[simp] theorem ofSigned?_self (d : Decimal) :
    ofSigned? d.negative d.magnitude d.scale = some d := by
  rw [ofSigned?, dif_pos ⟨d.magnitude_lt, d.scale_le⟩]

theorem coefficient_lt_zero {d : Decimal} :
    d.coefficient < 0 ↔ d.negative = true ∧ d.isZero = false := by
  unfold coefficient signed isZero
  cases d.negative
  · simp
  · simp
    omega

/-- All of a decimal is in its coefficient and its scale, but for the sign of a zero. -/
theorem ofParts?_self {d : Decimal} (h : d.isZero = false) :
    ofParts? d.coefficient d.scale = some d := by
  have hn : decide (d.coefficient < 0) = d.negative := by
    rw [Bool.eq_iff_iff, decide_eq_true_iff, coefficient_lt_zero]
    simp [h]
  rw [ofParts?, hn, natAbs_coefficient, ofSigned?_self]

theorem coefficient_of_ofParts? {coefficient : Int} {scale : Nat} {d : Decimal}
    (h : ofParts? coefficient scale = some d) : d.coefficient = coefficient ∧ d.scale = scale := by
  rw [ofParts?, ofSigned?] at h
  split at h
  · cases h
    exact ⟨signed_natAbs coefficient, rfl⟩
  · cases h

/-- The form in which a decimal is kept in a table: a zero loses its sign and its scale. -/
def stored (d : Decimal) : Decimal := if d.isZero then zero else d

@[simp] theorem stored_zero : stored zero = zero := rfl

@[simp] theorem stored_stored (d : Decimal) : d.stored.stored = d.stored := by
  unfold stored
  split <;> simp_all [isZero, zero]

end Decimal

end CardClub
