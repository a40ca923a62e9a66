import CardClub.Range
import CardClub.Ranking

/-!
# Competition positions

Rankings are listed from high to low points, equal points by membership. The first of a group of
equal points takes its place in the list as its position and the others of the group share it.
-/

namespace CardClub

/-- Whether a ranking is listed before or with another. -/
def ranksBefore (a b : Ranking) : Bool :=
  decide (b.points < a.points) ||
    (decide (b.points = a.points) && decide (a.membershipId ≤ b.membershipId))

/-- Positions do not go beyond this one. -/
def lastPosition : Nat := countLimit - 1

/-- The positions of rankings in order behind `index` others, of which `previous` is the last. -/
def positionsFrom (index : Nat) (previous : Option RankingPosition) :
    List Ranking → List RankingPosition
  | [] => []
  | r :: rs =>
    let own := min (index + 1) lastPosition
    let position :=
      match previous with
      | some q => if q.points = r.points then q.position else own
      | none => own
    let entry : RankingPosition := ⟨r.membershipId, r.points, position⟩
    entry :: positionsFrom (index + 1) (some entry) rs

def competitionPositions (rankings : List Ranking) : List RankingPosition :=
  positionsFrom 0 none (rankings.mergeSort ranksBefore)

end CardClub
