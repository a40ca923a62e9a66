import CardClub.Event
import CardClub.Participant
import CardClub.Range
import CardClub.Ranking

/-!
# Rows of the tables

Some columns of the tables are wider than the fields they hold: a state is a word and counters are
numbers with a sign. Reading a row gives the record or says which column holds what cannot be read.
-/

namespace CardClub

/-- The columns that hold counters. -/
inductive Counter where
  | rebuys
  | placement
  | attendance
  | position
deriving DecidableEq, Repr

def Counter.label : Counter → String
  | rebuys => "event rebuys"
  | placement => "placement"
  | attendance => "attendance"
  | position => "position"

/-- Why a row cannot be read. -/
inductive RowError where
  | unknownState (word : String)
  | outOfRange (counter : Counter) (value : Int)
  | other (text : String)
deriving DecidableEq

def RowError.message : RowError → String
  | unknownState word => s!"unknown event state '{word}'"
  | outOfRange counter value =>
    let size := if value < 0 then "small" else "large"
    s!"{counter.label} {value}: number too {size} to fit in target type"
  | other text => text

/-- A counter column as a count of 32 bits. -/
def readCounter (counter : Counter) (value : Int) : Except RowError Nat :=
  if fitsCount value then .ok value.toNat else .error (.outOfRange counter value)

/-- A row of the events. -/
structure EventRow extends EventPlan where
  id : EventId
  state : String
  rebuys : Int
  createdAt : Instant

/-- A row of the participants. -/
structure ParticipantRow where
  id : ParticipantId
  membershipId : MembershipId
  eventId : EventId
  placement : Int
  signedOutAt : Option Instant
  createdAt : Instant

/-- A row of the rankings. -/
structure RankingRow where
  membershipId : MembershipId
  points : Int
  attendance : Int

/-- A ranking with the position that the database has counted. -/
structure PositionRow where
  membershipId : MembershipId
  points : Int
  position : Int

namespace EventRow

def read (row : EventRow) : Except RowError Event :=
  match EventState.ofLabel? row.state with
  | none => .error (.unknownState row.state)
  | some state =>
    (readCounter .rebuys row.rebuys).map fun rebuys =>
      { row.toEventPlan with id := row.id, state, rebuys, createdAt := row.createdAt }

def ofEvent (e : Event) : EventRow :=
  { e.toEventPlan with
    id := e.id, state := e.state.label, rebuys := e.rebuys, createdAt := e.createdAt }

end EventRow

namespace ParticipantRow

def read (row : ParticipantRow) : Except RowError Participant :=
  (readCounter .placement row.placement).map fun placement =>
    ⟨row.id, row.membershipId, row.eventId, placement, row.signedOutAt, row.createdAt⟩

def ofParticipant (p : Participant) : ParticipantRow :=
  ⟨p.id, p.membershipId, p.eventId, p.placement, p.signedOutAt, p.createdAt⟩

end ParticipantRow

namespace RankingRow

def read (row : RankingRow) : Except RowError Ranking :=
  (readCounter .attendance row.attendance).map (Ranking.mk row.membershipId row.points)

def ofRanking (r : Ranking) : RankingRow := ⟨r.membershipId, r.points, r.attendance⟩

end RankingRow

def PositionRow.read (row : PositionRow) : Except RowError RankingPosition :=
  (readCounter .position row.position).map (RankingPosition.mk row.membershipId row.points)

theorem readCounter_natCast {counter : Counter} {n : Nat} (h : n < countLimit) :
    readCounter counter n = .ok n := by
  simp [readCounter, fitsCount_natCast.mpr h]

theorem EventRow.read_ofEvent {e : Event} (h : e.rebuys < countLimit) :
    (ofEvent e).read = .ok e := by
  simp only [EventRow.read, EventRow.ofEvent, EventState.ofLabel?_label, readCounter_natCast h]
  rfl

theorem ParticipantRow.read_ofParticipant {p : Participant} (h : p.placement < countLimit) :
    (ofParticipant p).read = .ok p := by
  rw [ParticipantRow.read, ParticipantRow.ofParticipant, readCounter_natCast h]
  rfl

theorem RankingRow.read_ofRanking {r : Ranking} (h : r.attendance < countLimit) :
    (ofRanking r).read = .ok r := by
  rw [RankingRow.read, RankingRow.ofRanking, readCounter_natCast h]
  rfl

end CardClub
