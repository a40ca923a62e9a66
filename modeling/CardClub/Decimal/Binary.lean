import CardClub.Decimal.Text
import CardClub.Figures

/-!
# Decimals from binary fractions

A number that is written with a fraction or an exponent outside of a text passes through the binary
numbers of 53 digits. Its significand is rounded to one of them, and is then multiplied or divided
by a power of ten that is rounded too, so the outcome need not be the closest one to what is
written. What counts of it is the shortest decimal that is closer to this binary number than to any
other one.
-/

namespace CardClub.Binary

/-- The number `mantissa * 2 ^ exponent` of at most 53 binary digits. -/
structure Float53 where
  mantissa : Nat
  exponent : Int
deriving DecidableEq

/-- The mantissa of such a number is below this limit. -/
def mantissaLimit : Nat := Nat.pow 2 53

/-- The smallest mantissa that uses all of its digits. -/
def leastFullMantissa : Nat := Nat.pow 2 52

/-- The smallest exponent of such a number. -/
def leastExponent : Int := -1074

/-- A fraction times a power of a base, as a fraction again. -/
def scaled (base num den : Nat) (power : Int) : Nat × Nat :=
  if 0 ≤ power then (num * Nat.pow base power.toNat, den)
  else (num, den * Nat.pow base (-power).toNat)

/-- The closest such number to a fraction, ties to the even mantissa. -/
def nearest (num den : Nat) : Float53 :=
  if num = 0 then ⟨0, 0⟩ else
  let guess : Int := (num.log2 : Int) - den.log2 - 52
  let (n, d) := scaled 2 num den (-guess)
  let exponent := max leastExponent (if n / d < leastFullMantissa then guess - 1 else guess)
  let (n, d) := scaled 2 num den (-exponent)
  let mantissa := roundDiv n d
  if mantissa = mantissaLimit then ⟨leastFullMantissa, exponent + 1⟩ else ⟨mantissa, exponent⟩

def Float53.isFinite (f : Float53) : Bool := decide (f.exponent ≤ 971)

def Float53.ratio (f : Float53) : Nat × Nat := scaled 2 f.mantissa 1 f.exponent

def Float53.times (f g : Float53) : Float53 :=
  nearest (f.ratio.1 * g.ratio.1) (f.ratio.2 * g.ratio.2)

def Float53.over (f g : Float53) : Float53 :=
  nearest (f.ratio.1 * g.ratio.2) (f.ratio.2 * g.ratio.1)

/-- The largest power of ten that there is such a number for. -/
def largestPower : Nat := 308

/-- The closest such number to a power of ten. -/
def powerOfTen (n : Nat) : Float53 := nearest (tenPow n) 1

/-- The product with a power of ten, if it is finite. -/
def raise? (f : Float53) (power : Nat) : Option Float53 :=
  if power ≤ largestPower then
    let r := f.times (powerOfTen power)
    if r.isFinite then some r else none
  else if f.mantissa = 0 then some f
  else none

/-- The quotient by a power of ten, in several steps if the power is large. -/
def lower (f : Float53) (power : Nat) : Float53 :=
  if power ≤ largestPower then f.over (powerOfTen power)
  else if f.mantissa = 0 then f
  else lower (f.over (powerOfTen largestPower)) (power - largestPower)
termination_by power
decreasing_by
  simp only [largestPower] at *
  omega

def ofFigures? (f : Figures) : Option Float53 :=
  let (significand, exponent) := f.significand
  let g := nearest significand 1
  if 0 ≤ exponent then raise? g exponent.toNat else some (lower g (-exponent).toNat)

/-- Looks for the coarsest decimal grid, from `10 ^ power` on, with a point in the interval of reals
that round to the number. The interval has four times its ends and its middle given over one
denominator. -/
def search (even : Bool) (low middle high den : Nat) (power : Int) : (fuel : Nat) → Nat × Int
  | 0 => (0, 0)
  | fuel + 1 =>
    let (low', den') := scaled 10 low den (-power)
    let (middle', _) := scaled 10 middle den (-power)
    let (high', _) := scaled 10 high den (-power)
    let inside (c : Nat) : Bool :=
      if even then decide (low' ≤ c * den' ∧ c * den' ≤ high')
      else decide (low' < c * den' ∧ c * den' < high')
    let below := middle' / den'
    if inside below && inside (below + 1) then (roundDiv middle' den', power)
    else if inside below then (below, power)
    else if inside (below + 1) then (below + 1, power)
    else search even low middle high den (power - 1) fuel

/-- The shortest decimal that rounds to the number, as a coefficient and a power of ten. -/
def Float53.shortest (f : Float53) : Nat × Int :=
  if f.mantissa = 0 then (0, 0)
  else
    let gap := if f.mantissa = leastFullMantissa ∧ leastExponent < f.exponent then 1 else 2
    let (unit, den) := scaled 2 1 1 (f.exponent - 2)
    search (f.mantissa % 2 == 0) ((4 * f.mantissa - gap) * unit) (4 * f.mantissa * unit)
      ((4 * f.mantissa + 2) * unit) den 309 640

end CardClub.Binary

namespace CardClub.Decimal

/-- The written form of a coefficient times a power of ten, without an exponent. -/
def plainDigits (coefficient : Nat) (power : Int) : List Char :=
  if 0 ≤ power then Nat.toDigits 10 (coefficient * tenPow power.toNat)
  else
    let ds := paddedDigits coefficient (-power).toNat
    let whole := ds.length - (-power).toNat
    ds.take whole ++ '.' :: ds.drop whole

def ofFigures? (f : Figures) : Option Decimal :=
  (Binary.ofFigures? f).bind fun g =>
    let (coefficient, power) := g.shortest
    ofNumeral? ((if f.negative then ['-'] else []) ++ plainDigits coefficient power)

end CardClub.Decimal
