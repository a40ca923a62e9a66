/-!
# Ranges of whole numbers

Counts that are exchanged have 32 bits, counters that are kept have 31, what is computed of counts
has 64, and points have 64 bits with a sign. Arithmetic is exact, and a result outside of its range
is refused.
-/

namespace CardClub

/-- Counts are below this limit. -/
def countLimit : Nat := Nat.pow 2 32

/-- Counters of the tables are below this limit. -/
def counterLimit : Nat := Nat.pow 2 31

/-- Points are below this limit, and not below its negative. -/
def pointsLimit : Nat := Nat.pow 2 63

/-- Numbers that are computed of counts are below this limit. -/
def wideLimit : Nat := Nat.pow 2 64

def fitsCount (n : Int) : Bool := decide (0 ≤ n ∧ n < countLimit)

/-- Whether a number can be kept as a counter. -/
def fitsCounter (n : Int) : Bool := decide (0 ≤ n ∧ n < counterLimit)

/-- Whether a number fits the column of a counter, which has a sign. -/
def fitsColumn (n : Int) : Bool := decide (-(counterLimit : Int) ≤ n ∧ n < counterLimit)

/-- Whether a number can be a number of points. -/
def fitsPoints (n : Int) : Bool := decide (-(pointsLimit : Int) ≤ n ∧ n < pointsLimit)

/-- The sum of two numbers of points, if it is one. -/
def addPoints? (a b : Int) : Option Int :=
  if fitsPoints (a + b) then some (a + b) else none

/-- A number that is computed of counts, if it is in range. -/
def wide? (n : Nat) : Option Nat := if n < wideLimit then some n else none

theorem fitsCount_iff {n : Int} : fitsCount n = true ↔ 0 ≤ n ∧ n < countLimit := by
  simp [fitsCount]

theorem fitsCounter_iff {n : Int} : fitsCounter n = true ↔ 0 ≤ n ∧ n < counterLimit := by
  simp [fitsCounter]

theorem fitsPoints_iff {n : Int} :
    fitsPoints n = true ↔ -(pointsLimit : Int) ≤ n ∧ n < pointsLimit := by
  simp [fitsPoints]

theorem fitsCount_natCast {n : Nat} : fitsCount n = true ↔ n < countLimit := by
  rw [fitsCount_iff]
  omega

theorem addPoints?_eq_some {a b c : Int} :
    addPoints? a b = some c ↔ fitsPoints (a + b) = true ∧ a + b = c := by
  by_cases h : fitsPoints (a + b) = true <;> simp [addPoints?, h]

end CardClub
