import CardClub.Work

/-!
# Stores

The stores run single statements and read what they answer. They test nothing beyond what the tables
demand; a change of a record that does not exist is an error where the answer needs the record.
-/

namespace CardClub.Store

def found {α : Type} (entity : Entity) (id : Uuid) (row : Option α) : Work StoreError α :=
  .require row (.notFound entity id)

def insertSemester (stamp : Stamp) (terms : SemesterTerms) : Work StoreError Semester := do
  let row ← .write .semesters (Statement.insertSemester ⟨stamp.uuid⟩ stamp.now terms)
  .ofExcept id row.read

def getSemester (semester : SemesterId) : Work StoreError (Option Semester) := do
  match ← .read (·.semester? semester) with
  | none => pure none
  | some row => .ofExcept id (row.read.map some)

/-- Adds an amount to the budget of a semester and reads the new budget. -/
def adjustBudget (semester : SemesterId) (amount : Decimal) : Work StoreError Decimal := do
  let budget ← .write .semesters (Statement.adjustBudget semester amount)
  let budget ← found .semester semester.uuid budget
  .require budget.toDecimal? (.database (.unreadableBudget .ofAdjustment))

def insertMembership (stamp : Stamp) (semester : SemesterId) (user : UserId)
    (paid discounted : Bool) : Work StoreError Membership :=
  .write .memberships
    (Statement.insertMembership ⟨⟨stamp.uuid⟩, semester, user, paid, discounted, stamp.now⟩)

def getMembership (membership : MembershipId) : Work StoreError (Option Membership) :=
  .read (·.membership? membership)

def insertEvent (stamp : Stamp) (plan : EventPlan) : Work StoreError Event :=
  .write .events (Statement.insertEvent ⟨stamp.uuid⟩ stamp.now plan)

def getEvent (event : EventId) : Work StoreError (Option Event) :=
  .read (·.event? event)

def listEvents (semester : SemesterId) : Work StoreError (List Event) :=
  .read (·.eventsOf semester)

def updateEvent (event : EventId) (update : EventUpdate) : Work StoreError (Option Event) :=
  .write .events (Statement.updateEvent event update)

def setState (event : EventId) (state : EventState) : Work StoreError Unit := do
  let rows ← .write .events (Statement.setState event state)
  .failIf (rows == 0) (.notFound .event event.uuid)

def incrementRebuys (event : EventId) : Work StoreError Nat := do
  let rebuys ← .write .events (Statement.incrementRebuys event)
  found .event event.uuid rebuys

def insertParticipant (stamp : Stamp) (event : EventId) (membership : MembershipId) :
    Work StoreError Participant :=
  .write .participants (Statement.insertParticipant ⟨stamp.uuid⟩ stamp.now event membership)

def getParticipant (participant : ParticipantId) : Work StoreError (Option Participant) :=
  .read (·.participant? participant)

def listParticipants (event : EventId) : Work StoreError (List Participant) :=
  .read (·.participantsOf event)

def setSignedOutAt (participant : ParticipantId) (time : Option Instant) :
    Work StoreError Unit := do
  let rows ← .write .participants (Statement.setSignedOutAt participant time)
  .failIf (rows == 0) (.notFound .participant participant.uuid)

/-- Signs out all who are still at the table of an event and gives their number. -/
def forceSignOut (event : EventId) (time : Instant) : Work StoreError Nat :=
  .write .participants (Statement.forceSignOut event time)

/-- Sets placements and gives the number of participants they were set for. Nothing is written when
there are none, or when one is too large for its column. -/
def setPlacements (placements : List (ParticipantId × Nat)) : Work StoreError Nat :=
  match placements.find? fun x => !fitsCounter x.2 with
  | some x => .fail (.unreadable (.outOfRange .placement x.2))
  | none =>
    if placements.isEmpty then pure 0
    else .write .participants (Statement.setPlacements placements)

/-- Adds points to the ranking of a membership and gives the new total. -/
def updateRanking (membership : MembershipId) (delta : Int) : Work StoreError Int := do
  let _ ← .write .rankings (Statement.creditRankings [(membership, delta)])
  .read fun c => ((c.ranking? membership).map (·.points)).getD delta

/-- Adds points to the rankings of several memberships and gives their number. Nothing is written
when there are none. -/
def batchUpdateRankings (deltas : List (MembershipId × Int)) : Work StoreError Nat :=
  if deltas.isEmpty then pure 0
  else .write .rankings (Statement.creditRankings deltas)

def getRanking (membership : MembershipId) : Work StoreError (Option Ranking) :=
  .read (·.ranking? membership)

def getPosition (semester : SemesterId) (membership : MembershipId) :
    Work StoreError (Option RankingPosition) := do
  match ← .read (·.position? semester membership) with
  | none => pure none
  | some row => .ofExcept .unreadable (row.read.map some)

def listRankings (semester : SemesterId) : Work StoreError (List Ranking) :=
  .read (·.rankingsOf semester)

end CardClub.Store
