import CardClub.Positions
import CardClub.Service.Enrolment

/-!
# The leaderboard

Points can be adjusted by hand, for one membership or for several at once. A single ranking is
positioned by counting the rankings above it, a whole leaderboard by its order; both give equal
points the same position.
-/

namespace CardClub.Service

/-- Adds points to the ranking of a membership and gives the new total. -/
def updateRanking (membership : MembershipId) (delta : Int) : Work ServiceError Int :=
  storeExcept StoreError.isForeignKeyViolation (.notFound .membership membership.uuid)
    (Store.updateRanking membership delta)

/-- Adds points to the rankings of several memberships and gives their number. -/
def batchUpdateRankings (deltas : List (MembershipId × Int)) : Work ServiceError Nat :=
  storeExcept StoreError.isForeignKeyViolation (.invalidRequest .unknownMembership)
    (Store.batchUpdateRankings deltas)

def getRanking (semester : SemesterId) (membership : MembershipId) :
    Work ServiceError RankingPosition := do
  found .ranking membership.uuid (← store (Store.getPosition semester membership))

def listRankings (semester : SemesterId) : Work ServiceError (List RankingPosition) := do
  return competitionPositions (← store (Store.listRankings semester))

end CardClub.Service
