import CardClub.Decimal
import CardClub.Instant
import CardClub.Uuid

/-!
# Events

An event is a tournament of a semester. It is started when it is created and may be ended and
started again any number of times. Its points multiplier scales what every finisher is awarded.
-/

namespace CardClub

/-- The two stages in the life of an event. -/
inductive EventState where
  /-- Entries, sign-outs and rebuys are open. -/
  | started
  /-- Placements are final and points have been credited. -/
  | ended
deriving DecidableEq, Repr, Inhabited

namespace EventState

def label : EventState → String
  | started => "started"
  | ended => "ended"

def ofLabel? (s : String) : Option EventState :=
  if s = "started" then some started
  else if s = "ended" then some ended
  else none

def isEnded : EventState → Bool
  | started => false
  | ended => true

@[simp] theorem isEnded_started : started.isEnded = false := rfl

@[simp] theorem isEnded_ended : ended.isEnded = true := rfl

@[simp] theorem ofLabel?_label (s : EventState) : ofLabel? s.label = some s := by
  cases s <;> simp [label, ofLabel?]

end EventState

/-- What is fixed when an event is announced. -/
structure EventPlan where
  semesterId : SemesterId
  /-- The blind structure that is played. -/
  structureId : StructureId
  name : String
  location : Option String
  startDate : Instant
  multiplier : Decimal
deriving DecidableEq, Inhabited

/-- An event with its state and its count of rebuys. -/
structure Event extends EventPlan where
  id : EventId
  state : EventState
  rebuys : Nat
  createdAt : Instant
deriving DecidableEq, Inhabited

/-- The plan as the tables give it back. -/
def EventPlan.stored (plan : EventPlan) : EventPlan :=
  { plan with startDate := plan.startDate.stored, multiplier := plan.multiplier.stored }

/-- New values for some of the descriptive fields of an event. -/
structure EventUpdate where
  structureId : Option StructureId
  name : Option String
  location : Option String
  startDate : Option Instant
  multiplier : Option Decimal
deriving DecidableEq, Inhabited

namespace EventUpdate

def empty : EventUpdate := ⟨none, none, none, none, none⟩

/-- The plan with the set fields replaced, as the tables give them back. -/
def apply (u : EventUpdate) (plan : EventPlan) : EventPlan where
  semesterId := plan.semesterId
  structureId := u.structureId.getD plan.structureId
  name := u.name.getD plan.name
  location := u.location.or plan.location
  startDate := (u.startDate.map Instant.stored).getD plan.startDate
  multiplier := (u.multiplier.map Decimal.stored).getD plan.multiplier

/-- The update whose fields are overridden by the set fields of a later one. -/
def override (u later : EventUpdate) : EventUpdate where
  structureId := later.structureId.or u.structureId
  name := later.name.or u.name
  location := later.location.or u.location
  startDate := later.startDate.or u.startDate
  multiplier := later.multiplier.or u.multiplier

@[simp] theorem apply_empty (plan : EventPlan) : empty.apply plan = plan := rfl

theorem apply_override (u later : EventUpdate) (plan : EventPlan) :
    (u.override later).apply plan = later.apply (u.apply plan) := by
  rcases u with ⟨a, b, c, d, e⟩
  rcases later with ⟨a', b', c', d', e'⟩
  cases a' <;> cases b' <;> cases c' <;> cases d' <;> cases e' <;> simp [override, apply]

end EventUpdate

end CardClub
