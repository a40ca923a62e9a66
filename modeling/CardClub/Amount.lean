import CardClub.Decimal

/-!
# Stored amounts of money

A running budget is kept as an exact decimal of any size: additions never round and never fail.
Reading it back as a decimal gives the same coefficient and scale whenever they are in range. Beyond
that the digits are summed four at a time, each partial sum keeping the digits there is room for,
and a whole part that does not fit cannot be read at all.
-/

namespace CardClub

/-- An exact decimal of any size. -/
structure Amount where
  /-- The number without its decimal point. -/
  coefficient : Int
  /-- The number of fraction digits. -/
  scale : Nat
deriving DecidableEq, Inhabited

namespace Amount

def value (a : Amount) : Rat := mkRat a.coefficient (tenPow a.scale)

/-- A decimal as an amount; a zero loses its sign and its scale. -/
def ofDecimal (d : Decimal) : Amount :=
  if d.isZero then ⟨0, 0⟩ else ⟨d.coefficient, d.scale⟩

/-- The exact sum, with the larger of the two scales. -/
def add (a b : Amount) : Amount :=
  let scale := max a.scale b.scale
  ⟨a.coefficient * tenPow (scale - a.scale) + b.coefficient * tenPow (scale - b.scale), scale⟩

instance : Add Amount := ⟨add⟩

/-- The fraction digits of a magnitude in groups of four, the first group next to the point. A last
group that is cut short by the scale is filled up with zeros. -/
def fractionGroups (magnitude scale : Nat) : List Nat :=
  let count := (scale + 3) / 4
  let filled := magnitude * tenPow (4 * count - scale)
  (List.range count).map fun i => filled / tenPow (4 * (count - 1 - i)) % tenPow 4

/-- Adds groups of four fraction digits to a partial sum, from the given group on. -/
def addGroups (sum : Decimal) (index : Nat) : List Nat → Option Decimal
  | [] => some sum
  | g :: gs =>
    (Decimal.ofParts? g (4 * (index + 1))).bind fun part =>
      (sum.add? part).bind fun next => addGroups next (index + 1) gs

/-- Adds trailing zeros up to a scale, as far as there is room. -/
def lengthen (coefficient : Nat) (scale : Nat) : (more : Nat) → Nat × Nat
  | 0 => (coefficient, scale)
  | more + 1 =>
    if coefficient * 10 < coefficientLimit then lengthen (coefficient * 10) (scale + 1) more
    else (coefficient, scale)

def readLong (a : Amount) : Option Decimal :=
  let magnitude := a.coefficient.natAbs
  (Decimal.ofParts? (magnitude / tenPow a.scale : Nat) 0).bind fun whole =>
    (addGroups whole 0 (fractionGroups magnitude a.scale)).bind fun d =>
      let (m, scale) :=
        if a.scale < d.scale then (d.magnitude / tenPow (d.scale - a.scale), a.scale)
        else lengthen d.magnitude d.scale (a.scale - d.scale)
      Decimal.ofParts? (signed (decide (a.coefficient < 0)) m) scale

/-- Reads an amount as a decimal. Zero reads as a zero without fraction digits. -/
def toDecimal? (a : Amount) : Option Decimal :=
  if a.coefficient = 0 then some Decimal.zero
  else
    match Decimal.ofParts? a.coefficient a.scale with
    | some d => some d
    | none => readLong a

@[simp] theorem toDecimal?_ofDecimal (d : Decimal) : (ofDecimal d).toDecimal? = some d.stored := by
  unfold ofDecimal Decimal.stored
  split
  · rfl
  · have hz : d.isZero = false := by simpa using ‹¬d.isZero = true›
    have h : d.coefficient ≠ 0 := by
      intro h
      have hm := d.natAbs_coefficient
      rw [h] at hm
      simp [Decimal.isZero, ← hm] at hz
    simp [toDecimal?, h, Decimal.ofParts?_self hz]

end Amount

end CardClub
