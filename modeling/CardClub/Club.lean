import CardClub.Amount
import CardClub.Event
import CardClub.Participant
import CardClub.Range
import CardClub.Ranking
import CardClub.Semester
import CardClub.StoreError

/-!
# The tables of the club

The state of the club is five tables. Records refer to each other by identifiers, and the running
budget of a semester is kept as an exact amount. Reading looks records up and lists them in the
orders in which they are shown.
-/

namespace CardClub

/-- A semester as it is kept. -/
structure SemesterRow extends SemesterTerms where
  id : SemesterId
  budget : Amount
  createdAt : Instant
deriving DecidableEq, Inhabited

def SemesterRow.read (row : SemesterRow) : Except StoreError Semester :=
  match row.budget.toDecimal? with
  | some budget =>
    .ok { row.toSemesterTerms with
      id := row.id, currentBudget := budget, createdAt := row.createdAt }
  | none => .error (.database (.unreadableBudget .ofRow))

/-- The tables of the club. -/
structure Club where
  semesters : List SemesterRow
  memberships : List Membership
  events : List Event
  participants : List Participant
  rankings : List Ranking
deriving DecidableEq

namespace Club

def empty : Club := ⟨[], [], [], [], []⟩

instance : Inhabited Club := ⟨empty⟩

def semester? (c : Club) (id : SemesterId) : Option SemesterRow :=
  c.semesters.find? fun s => decide (s.id = id)

def membership? (c : Club) (id : MembershipId) : Option Membership :=
  c.memberships.find? fun m => decide (m.id = id)

def event? (c : Club) (id : EventId) : Option Event :=
  c.events.find? fun e => decide (e.id = id)

def participant? (c : Club) (id : ParticipantId) : Option Participant :=
  c.participants.find? fun p => decide (p.id = id)

def ranking? (c : Club) (id : MembershipId) : Option Ranking :=
  c.rankings.find? fun r => decide (r.membershipId = id)

/-- Whether an event is listed before or with another: late starts first, then by identifier. -/
def startsBefore (a b : Event) : Bool :=
  decide (b.startDate < a.startDate) ||
    (decide (b.startDate = a.startDate) && decide (a.id ≤ b.id))

/-- The events of a semester as they are listed. -/
def eventsOf (c : Club) (semester : SemesterId) : List Event :=
  (c.events.filter fun e => decide (e.semesterId = semester)).mergeSort startsBefore

/-- Whether a participant is listed before or with another: late sign-outs first, players still at
the table last, then by identifier. -/
def listedBefore (a b : Participant) : Bool :=
  match a.signedOutAt, b.signedOutAt with
  | some s, some t => decide (t < s) || (decide (t = s) && decide (a.id ≤ b.id))
  | some _, none => true
  | none, some _ => false
  | none, none => decide (a.id ≤ b.id)

/-- The participants of an event in no particular order. -/
def field (c : Club) (event : EventId) : List Participant :=
  c.participants.filter fun p => decide (p.eventId = event)

/-- The participants of an event as they are listed. -/
def participantsOf (c : Club) (event : EventId) : List Participant :=
  (c.field event).mergeSort listedBefore

def rankingsOf (c : Club) (semester : SemesterId) : List Ranking :=
  c.rankings.filter fun r =>
    c.memberships.any fun m => decide (m.id = r.membershipId) && decide (m.semesterId = semester)

/-- One more than the number of rankings with more points. -/
def rank (rankings : List Ranking) (points : Int) : Nat :=
  (rankings.filter fun r => decide (points < r.points)).length + 1

/-- The ranking of a membership with its rank within a semester. -/
def position? (c : Club) (semester : SemesterId) (membership : MembershipId) : Option PositionRow :=
  let rankings := c.rankingsOf semester
  (rankings.find? fun r => decide (r.membershipId = membership)).map fun r =>
    ⟨r.membershipId, r.points, rank rankings r.points⟩

end Club

end CardClub
