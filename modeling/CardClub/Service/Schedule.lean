import CardClub.Service.Enrolment

/-!
# The schedule of events

Events are announced, listed and amended. The multiplier of an event that has ended cannot be given
another value, because undoing the end computes from it what was credited.
-/

namespace CardClub

def eventNameFault? (name : String) : Option RequestError :=
  if isBlankText name then some .blankEventName else none

def multiplierFault? (multiplier : Decimal) : Option RequestError :=
  if multiplier.isNegative then some (.negativeMultiplier multiplier) else none

def EventPlan.fault? (plan : EventPlan) : Option RequestError :=
  (eventNameFault? plan.name).or (multiplierFault? plan.multiplier)

def EventUpdate.fault? (update : EventUpdate) : Option RequestError :=
  (update.name.bind eventNameFault?).or (update.multiplier.bind multiplierFault?)

/-- Whether an update sets a multiplier that differs from a given one as a number. -/
def EventUpdate.changesMultiplier (update : EventUpdate) (current : Decimal) : Bool :=
  update.multiplier.any fun m => !m.sameValue current

namespace Service

def getEvent (event : EventId) : Work ServiceError Event := do
  found .event event.uuid (← store (Store.getEvent event))

def createEvent (stamp : Stamp) (plan : EventPlan) : Work ServiceError Event := do
  refuse plan.fault?
  let _ ← getSemester plan.semesterId
  store (Store.insertEvent stamp plan)

def listEvents (semester : SemesterId) : Work ServiceError (List Event) := do
  let _ ← getSemester semester
  store (Store.listEvents semester)

def updateEvent (event : EventId) (update : EventUpdate) : Work ServiceError Event := do
  refuse update.fault?
  .transaction do
    let current ← getEvent event
    .failIf (current.state.isEnded && update.changesMultiplier current.multiplier)
      (.forbidden (.multiplierFrozen event))
    found .event event.uuid (← store (Store.updateEvent event update))

end Service

end CardClub
