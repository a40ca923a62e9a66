import CardClub.Uuid

/-!
# Rankings

A ranking is the running total of a membership's points. On a leaderboard it carries a competition
position: equal points share a position and the next lower total counts everyone above it.
-/

namespace CardClub

/-- The points and the attendance of a membership. -/
structure Ranking where
  membershipId : MembershipId
  points : Int
  attendance : Nat
deriving DecidableEq, Inhabited

/-- The points of a membership and their position on the leaderboard. -/
structure RankingPosition where
  membershipId : MembershipId
  points : Int
  position : Nat
deriving DecidableEq, Inhabited

end CardClub
