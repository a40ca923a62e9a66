import CardClub.Numeral

/-!
# Numbers in figures

A number that is written with a fraction or an exponent is known by its figures. Readers of such a
number keep 64 bits of it: they take digits as long as they fit, first from those before the point
and then from those behind it, and let the others go.
-/

namespace CardClub

/-- A number as it is written: a sign, digits before and behind the point, and a power of ten. -/
structure Figures where
  negative : Bool
  whole : List Nat
  fraction : List Nat
  exponent : Int
deriving DecidableEq, Repr

namespace Figures

def ofInt (n : Int) : Figures :=
  ⟨decide (n < 0), (Nat.toDigits 10 n.natAbs).filterMap Numeral.decimalDigit?, [], 0⟩

def significandLimit : Nat := Nat.pow 2 64

/-- Takes digits onto a significand up to the first one that does not fit, and counts those that are
left. -/
def gather (significand : Nat) : List Nat → Nat × Nat
  | [] => (significand, 0)
  | d :: ds =>
    if significand * 10 + d < significandLimit then gather (significand * 10 + d) ds
    else (significand, ds.length + 1)

/-- The significand of a number and its power of ten. Digits before the point that are left out
still count for their places, and those behind it for nothing. -/
def significand (f : Figures) : Nat × Int :=
  let (high, passed) := gather 0 f.whole
  let (low, unread) := gather high f.fraction
  (low, f.exponent + passed - (f.fraction.length - unread : Nat))

end Figures

end CardClub
