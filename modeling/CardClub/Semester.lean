import CardClub.Decimal
import CardClub.Instant
import CardClub.Uuid

/-!
# Semesters and memberships

A semester is the season of the club: it has a running budget and fixed fees. A membership ties one
user to one semester; a paid membership has added its fee to the budget.
-/

namespace CardClub

/-- What is agreed when a semester is opened. -/
structure SemesterTerms where
  name : String
  startDate : Instant
  endDate : Instant
  initialBudget : Decimal
  membershipFee : Decimal
  discountedFee : Decimal
  rebuyFee : Decimal
deriving DecidableEq, Inhabited

/-- A semester with its running budget. -/
structure Semester extends SemesterTerms where
  id : SemesterId
  currentBudget : Decimal
  createdAt : Instant
deriving DecidableEq, Inhabited

def SemesterTerms.feeFor (terms : SemesterTerms) (discounted : Bool) : Decimal :=
  if discounted then terms.discountedFee else terms.membershipFee

/-- The terms as the tables give them back. -/
def SemesterTerms.stored (terms : SemesterTerms) : SemesterTerms where
  name := terms.name
  startDate := terms.startDate.stored
  endDate := terms.endDate.stored
  initialBudget := terms.initialBudget.stored
  membershipFee := terms.membershipFee.stored
  discountedFee := terms.discountedFee.stored
  rebuyFee := terms.rebuyFee.stored

/-- A user's membership in a semester. -/
structure Membership where
  id : MembershipId
  semesterId : SemesterId
  userId : UserId
  /-- Whether the fee has been paid. -/
  paid : Bool
  /-- Whether the discounted fee applies. -/
  discounted : Bool
  createdAt : Instant
deriving DecidableEq, Inhabited

end CardClub
