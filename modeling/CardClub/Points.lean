import CardClub.Decimal
import CardClub.Decimal.Text
import CardClub.Range

/-!
# Points of a placement

A finisher gets ten points for taking part and ten for each player who finished below, times the
multiplier of the event, rounded to a whole number with ties to the even one. The product is a
decimal, so it may have been rounded once before; a total that needs more than 64 bits is an
overflow.
-/

namespace CardClub

/-- The steps of a computation of points that may leave the range of their numbers. -/
inductive PointsStep where
  | playersOutlasted
  | basePoints
  | scaledPoints
  | wholePoints
  | negatedPoints
  | points
deriving DecidableEq, Repr

def PointsStep.label : PointsStep → String
  | playersOutlasted => "players outlasted"
  | basePoints => "base points"
  | scaledPoints => "scaled points"
  | wholePoints => "points do not fit i64"
  | negatedPoints => "negated points"
  | points => "points"

/-- Why points cannot be computed. -/
inductive RankingError where
  | invalidPlacement (placement fieldSize : Nat)
  | negativeMultiplier (multiplier : Decimal)
  | fieldTooLarge (size : Nat)
  | overflow (step : PointsStep)
deriving DecidableEq

def RankingError.message : RankingError → String
  | invalidPlacement placement fieldSize =>
        s!"placement {placement} is outside a field of {fieldSize}"
  | negativeMultiplier multiplier =>
    s!"points multiplier must not be negative, got {multiplier.toText}"
  | fieldTooLarge size => s!"field of {size} participants is too large"
  | overflow step => s!"points overflow: {step.label}"

/-- Points for taking part, before the multiplier. -/
def participationPoints : Nat := 10

/-- Points for each player finishing below, before the multiplier. -/
def pointsPerPlayerOutlasted : Nat := 10

def basePoints (fieldSize placement : Nat) : Nat :=
  pointsPerPlayerOutlasted * (fieldSize - placement) + participationPoints

/-- The number of players of a field that a placement outlasts. -/
def outlasted? (fieldSize placement : Nat) : Option Nat :=
  if placement ≤ fieldSize then some (fieldSize - placement) else none

/-- The points for outlasting some players, before the multiplier. -/
def pointsFor? (outlasted : Nat) : Option Nat :=
  (wide? (outlasted * pointsPerPlayerOutlasted)).bind fun points =>
    wide? (points + participationPoints)

/-- The points for finishing at a placement of a field. -/
def awardPoints (fieldSize placement : Nat) (multiplier : Decimal) : Except RankingError Int :=
  if placement = 0 ∨ fieldSize < placement then .error (.invalidPlacement placement fieldSize)
  else if multiplier.isNegative then .error (.negativeMultiplier multiplier)
  else
    match outlasted? fieldSize placement with
    | none => .error (.overflow .playersOutlasted)
    | some outlasted =>
      match pointsFor? outlasted with
      | none => .error (.overflow .basePoints)
      | some base =>
        match multiplier.times? base with
        | none => .error (.overflow .scaledPoints)
        | some product =>
          if fitsPoints product.roundWhole then .ok product.roundWhole
          else .error (.overflow .wholePoints)

theorem pointsFor?_outlasted (fieldSize placement : Nat) :
    pointsFor? (fieldSize - placement) = wide? (basePoints fieldSize placement) := by
  have hbase : (fieldSize - placement) * pointsPerPlayerOutlasted + participationPoints =
      basePoints fieldSize placement := by rw [Nat.mul_comm, basePoints]
  rw [pointsFor?, wide?]
  split
  · rw [Option.bind_some, hbase]
  · next hlarge => rw [Option.bind_none, wide?, if_neg (by omega)]

end CardClub
