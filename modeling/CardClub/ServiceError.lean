import CardClub.Points
import CardClub.StoreError

/-!
# Errors of the services

A service call fails because a record does not exist, because the state of an event forbids it,
because the request itself is wrong, or because something broke underneath.
-/

namespace CardClub

/-- What an event does not allow any more, or not yet. -/
inductive Prohibition where
  | alreadyEnded (event : EventId)
  | notEnded (event : EventId)
  | rebuysClosed (event : EventId)
  | entriesClosed (event : EventId)
  | signOutsFrozen (event : EventId)
  | multiplierFrozen (event : EventId)
  | other (text : String)
deriving DecidableEq

def Prohibition.message : Prohibition → String
  | alreadyEnded e => s!"event {e.toText} has already ended"
  | notEnded e => s!"event {e.toText} has not ended"
  | rebuysClosed e => s!"event {e.toText} has ended; rebuys are closed"
  | entriesClosed e => s!"event {e.toText} has ended; entries are closed"
  | signOutsFrozen e => s!"event {e.toText} has ended; sign-out order is frozen"
  | multiplierFrozen e => s!"event {e.toText} has ended; its points multiplier is frozen"
  | other text => text

/-- The fees of a semester. -/
inductive Fee where
  | membership
  | discounted
  | rebuy
deriving DecidableEq, Repr

def Fee.label : Fee → String
  | membership => "membership fee"
  | discounted => "discounted membership fee"
  | rebuy => "rebuy fee"

/-- What is wrong with a request. -/
inductive RequestError where
  | blankSemesterName
  | blankEventName
  | endsBeforeStart
  | negativeFee (fee : Fee) (amount : Decimal)
  | negativeMultiplier (multiplier : Decimal)
  | duplicateMembership (user : UserId) (semester : SemesterId)
  | foreignMembership (membership : MembershipId) (own : SemesterId) (event : EventId)
      (theirs : SemesterId)
  | duplicateEntry (membership : MembershipId) (event : EventId)
  | unknownMembership
  | other (text : String)
deriving DecidableEq

def RequestError.message : RequestError → String
  | blankSemesterName => "semester name must not be blank"
  | blankEventName => "event name must not be blank"
  | endsBeforeStart => "semester must not end before it starts"
  | negativeFee fee amount => s!"{fee.label} must not be negative, got {amount.toText}"
  | negativeMultiplier multiplier => (RankingError.negativeMultiplier multiplier).message
  | duplicateMembership user semester =>
    s!"user {user.toText} already holds a membership in semester {semester.toText}"
  | foreignMembership membership own event theirs =>
    s!"membership {membership.toText} belongs to semester {own.toText}, " ++
      s!"event {event.toText} to semester {theirs.toText}"
  | duplicateEntry membership event =>
    s!"membership {membership.toText} is already entered in event {event.toText}"
  | unknownMembership => "batch references a membership that does not exist"
  | other text => text

/-- What broke underneath a service. -/
inductive Breakdown where
  | store (cause : StoreError)
  | ranking (cause : RankingError)
  | reversal (event : EventId) (cause : RankingError)
  | pointsOverflow (membership : MembershipId)
  | other (text : String)
deriving DecidableEq

def Breakdown.message : Breakdown → String
  | store cause => cause.message
  | ranking cause => cause.message
  | reversal event cause => s!"event {event.toText}: {cause.message}"
  | pointsOverflow membership => s!"points overflow for membership {membership.toText}"
  | other text => text

/-- Why a service call fails. -/
inductive ServiceError where
  | notFound (entity : Entity) (id : Uuid)
  | forbidden (cause : Prohibition)
  | invalidRequest (cause : RequestError)
  | internal (cause : Breakdown)
deriving DecidableEq

namespace ServiceError

def message : ServiceError → String
  | notFound entity id => s!"{entity.label} {id.toText} not found"
  | forbidden cause => s!"forbidden: {cause.message}"
  | invalidRequest cause => s!"invalid request: {cause.message}"
  | internal cause => s!"internal error: {cause.message}"

/-- A missing record stays one; all else is a breakdown. -/
def ofStore : StoreError → ServiceError
  | .notFound entity id => notFound entity id
  | cause => internal (.store cause)

/-- A failure of the database is a breakdown. -/
def ofDatabase (cause : DatabaseError) : ServiceError := ofStore (.database cause)

/-- A negative multiplier is the fault of the request; all else is a breakdown. -/
def ofRanking : RankingError → ServiceError
  | .negativeMultiplier multiplier => invalidRequest (.negativeMultiplier multiplier)
  | cause => internal (.ranking cause)

/-- As for any ranking, but a breakdown names the event that cannot be reversed. -/
def ofReversal (event : EventId) : RankingError → ServiceError
  | .negativeMultiplier multiplier => invalidRequest (.negativeMultiplier multiplier)
  | cause => internal (.reversal event cause)

end ServiceError

end CardClub
