import CardClub.Service.Seating
import CardClub.Standings

/-!
# Ending an event, undoing the end, and rebuys

Ending an event signs out all who are still at the table, stamped with the start of the event, fixes
the placements by sign-out time and credits the points. Undoing debits the points that the recorded
placements were awarded; placements and sign-out times stay. A rebuy adds its fee to the budget of
the semester.
-/

namespace CardClub

/-- The outcome of ending an event: its awards in finishing order. -/
structure Standings where
  eventId : EventId
  fieldSize : Nat
  awards : List Award
deriving DecidableEq, Inhabited

/-- The outcome of a rebuy. -/
structure RebuyOutcome where
  eventId : EventId
  rebuys : Nat
  currentBudget : Decimal
deriving DecidableEq, Inhabited

/-- Adds points to the entry of a membership in a list of deltas, which is kept in ascending order
of the memberships. -/
def addDelta (membership : MembershipId) (points : Int) :
    List (MembershipId × Int) → Option (List (MembershipId × Int))
  | [] => (addPoints? 0 points).map fun total => [(membership, total)]
  | (m, total) :: rest =>
    if membership < m then
      (addPoints? 0 points).map fun own => (membership, own) :: (m, total) :: rest
    else if membership = m then (addPoints? total points).map fun sum => (m, sum) :: rest
    else (addDelta membership points rest).map ((m, total) :: ·)

/-- Nets a plan per membership, from some deltas on. -/
def netFrom (deltas : List (MembershipId × Int)) :
    List Award → Except MembershipId (List (MembershipId × Int))
  | [] => .ok deltas
  | a :: plan =>
    match addDelta a.membershipId a.points deltas with
    | some next => netFrom next plan
    | none => .error a.membershipId

/-- The sum of the points of each membership of a plan, in ascending order of the memberships. It is
an error when a partial sum leaves the range of points; the error is the membership. -/
def netDeltas (plan : List Award) : Except MembershipId (List (MembershipId × Int)) :=
  netFrom [] plan

namespace Service

/-- Nets a plan per membership and writes it to the rankings as one batch. -/
def applyToRankings (plan : List Award) : Work ServiceError Unit := do
  let deltas ← .ofExcept (fun m => .internal (.pointsOverflow m)) (netDeltas plan)
  let _ ← store (Store.batchUpdateRankings deltas)

def endEvent (event : EventId) : Work ServiceError Standings :=
  .transaction do
    let e ← getEvent event
    .failIf e.state.isEnded (.forbidden (.alreadyEnded event))
    let _ ← store (Store.forceSignOut event e.startDate)
    store (Store.setState event .ended)
    let participants ← store (Store.listParticipants event)
    let awards ← .ofExcept .ofRanking
      (planAwards (finishingOrder e.startDate participants) e.multiplier)
    applyToRankings awards
    let _ ← store (Store.setPlacements (awards.map fun a => (a.participantId, a.placement)))
    pure ⟨event, awards.length, awards⟩

/-- Undoes the end of an event and gives the debits. -/
def undoEndEvent (event : EventId) : Work ServiceError (List Award) :=
  .transaction do
    let e ← getEvent event
    .failIf (!e.state.isEnded) (.forbidden (.notEnded event))
    let participants ← store (Store.listParticipants event)
    let reversal ← .ofExcept (.ofReversal event) (planReversal participants e.multiplier)
    applyToRankings reversal
    store (Store.setState event .started)
    pure reversal

/-- Counts a rebuy of a started event and adds its fee to the budget. -/
def newRebuy (event : EventId) : Work ServiceError RebuyOutcome :=
  .transaction do
    let e ← getEvent event
    .failIf e.state.isEnded (.forbidden (.rebuysClosed event))
    let rebuys ← store (Store.incrementRebuys event)
    let semester ← getSemester e.semesterId
    let currentBudget ← store (Store.adjustBudget semester.id semester.rebuyFee)
    pure ⟨event, rebuys, currentBudget⟩

end Service

end CardClub
