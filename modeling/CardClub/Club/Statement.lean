import CardClub.Club

/-!
# Statements that write

A statement changes one table and gives an answer, or it is refused and changes nothing. Inserting
tests the ranges of the new row first, then that its keys are new, then that what it refers to
exists. Deleting a record deletes all that refers to it.
-/

namespace CardClub

/-- Replaces every member of a list that passes a test. -/
def replaceWhere {α : Type} (test : α → Bool) (change : α → α) (l : List α) : List α :=
  l.map fun a => if test a then change a else a

/-- The outcome of a statement: its answer and the tables after it. -/
abbrev Statement (α : Type) := Club → Except DatabaseError (α × Club)

namespace Statement

/-- Opens a semester, with its initial budget as running budget. -/
def insertSemester (id : SemesterId) (now : Instant) (terms : SemesterTerms) :
    Statement SemesterRow :=
  fun c =>
    let kept := terms.stored
    let row : SemesterRow :=
      { kept with id, budget := .ofDecimal terms.initialBudget, createdAt := now.stored }
    if kept.membershipFee.isNegative || kept.discountedFee.isNegative || kept.rebuyFee.isNegative ||
        decide (kept.endDate < kept.startDate) then
      .error (.checkViolation .semesters)
    else if (c.semester? id).isSome then .error (.uniqueViolation .semesters)
    else .ok (row, { c with semesters := c.semesters ++ [row] })

/-- Adds an amount to the budget of a semester; gives the new budget, or nothing without such a
semester. -/
def adjustBudget (id : SemesterId) (amount : Decimal) : Statement (Option Amount) := fun c =>
  match c.semester? id with
  | none => .ok (none, c)
  | some row =>
    let budget := row.budget + .ofDecimal amount
    .ok (some budget,
      { c with
        semesters :=
          replaceWhere (fun s => decide (s.id = id)) (fun s => { s with budget }) c.semesters })

/-- Adds a membership. A user has one membership in a semester. -/
def insertMembership (m : Membership) : Statement Membership := fun c =>
  let row := { m with createdAt := m.createdAt.stored }
  if (c.membership? m.id).isSome ||
      c.memberships.any fun x =>
        decide (x.semesterId = m.semesterId) && decide (x.userId = m.userId) then
    .error (.uniqueViolation .memberships)
  else if (c.semester? m.semesterId).isNone then .error (.foreignKeyViolation .memberships)
  else .ok (row, { c with memberships := c.memberships ++ [row] })

/-- Adds a started event without rebuys. -/
def insertEvent (id : EventId) (now : Instant) (plan : EventPlan) : Statement Event := fun c =>
  let row : Event :=
    { plan.stored with id, state := .started, rebuys := 0, createdAt := now.stored }
  if row.multiplier.isNegative then .error (.checkViolation .events)
  else if (c.event? id).isSome then .error (.uniqueViolation .events)
  else if (c.semester? plan.semesterId).isNone then .error (.foreignKeyViolation .events)
  else .ok (row, { c with events := c.events ++ [row] })

/-- Replaces an event by its identifier. -/
def putEvent (c : Club) (e : Event) : Club :=
  { c with events := replaceWhere (fun x => decide (x.id = e.id)) (fun _ => e) c.events }

/-- Sets the given descriptive fields of an event; gives the new event, or nothing without such an
event. -/
def updateEvent (id : EventId) (update : EventUpdate) : Statement (Option Event) := fun c =>
  match c.event? id with
  | none => .ok (none, c)
  | some e =>
    let row : Event := { e with toEventPlan := update.apply e.toEventPlan }
    if row.multiplier.isNegative then .error (.checkViolation .events)
    else .ok (some row, putEvent c row)

def setState (id : EventId) (state : EventState) : Statement Nat := fun c =>
  match c.event? id with
  | none => .ok (0, c)
  | some e => .ok (1, putEvent c { e with state })

/-- Counts one more rebuy; gives the new count, or nothing without such an event. -/
def incrementRebuys (id : EventId) : Statement (Option Nat) := fun c =>
  match c.event? id with
  | none => .ok (none, c)
  | some e =>
    if fitsCounter (e.rebuys + 1) then
      .ok (some (e.rebuys + 1), putEvent c { e with rebuys := e.rebuys + 1 })
    else .error .countOutOfRange

/-- Enters a membership in an event, without placement and still at the table. A membership enters
an event once. -/
def insertParticipant (id : ParticipantId) (now : Instant) (event : EventId)
    (membership : MembershipId) : Statement Participant := fun c =>
  let row : Participant := ⟨id, membership, event, 0, none, now.stored⟩
  if (c.participant? id).isSome ||
      c.participants.any fun p =>
        decide (p.membershipId = membership) && decide (p.eventId = event) then
    .error (.uniqueViolation .participants)
  else if (c.membership? membership).isNone || (c.event? event).isNone then
    .error (.foreignKeyViolation .participants)
  else .ok (row, { c with participants := c.participants ++ [row] })

/-- Replaces the participants that pass a test; gives their number. -/
def changeParticipants (test : Participant → Bool) (change : Participant → Participant) :
    Statement Nat := fun c =>
  .ok ((c.participants.filter test).length,
    { c with participants := replaceWhere test change c.participants })

def setSignedOutAt (id : ParticipantId) (time : Option Instant) : Statement Nat :=
  changeParticipants (fun p => decide (p.id = id))
    fun p => { p with signedOutAt := time.map Instant.stored }

/-- Signs out all who are still at the table of an event. -/
def forceSignOut (event : EventId) (time : Instant) : Statement Nat :=
  changeParticipants (fun p => decide (p.eventId = event) && p.isActive)
    fun p => { p with signedOutAt := some time.stored }

/-- The placement that a list of placements sets for a participant. -/
def placementIn (placements : List (ParticipantId × Nat)) (p : Participant) : Option Nat :=
  (placements.find? fun x => decide (x.1 = p.id)).map (·.2)

def setPlacements (placements : List (ParticipantId × Nat)) : Statement Nat :=
  changeParticipants (fun p => (placementIn placements p).isSome)
    fun p => { p with placement := (placementIn placements p).getD p.placement }

/-- Adds points to the ranking of a membership; a missing ranking is made with these points. -/
def creditRanking (rankings : List Ranking) (delta : MembershipId × Int) :
    Except DatabaseError (List Ranking) :=
  match rankings.find? fun r => decide (r.membershipId = delta.1) with
  | none =>
    if fitsPoints delta.2 then .ok (rankings ++ [⟨delta.1, delta.2, 0⟩])
    else .error .pointsOutOfRange
  | some r =>
    match addPoints? r.points delta.2 with
    | none => .error .pointsOutOfRange
    | some points =>
      .ok (replaceWhere (fun x => decide (x.membershipId = delta.1))
        (fun x => { x with points }) rankings)

/-- Adds points to the rankings of several memberships, all of which must exist. -/
def creditRankings (deltas : List (MembershipId × Int)) : Statement Nat := fun c =>
  match deltas.foldlM creditRanking c.rankings with
  | .error e => .error e
  | .ok rankings =>
    if deltas.all fun d => (c.membership? d.1).isSome then .ok (deltas.length, { c with rankings })
    else .error (.foreignKeyViolation .rankings)

/-- Sets a counter to a number that may be out of its range; gives the number of records it was set
on. -/
def setCounter {α : Type} (table : Table) (test : α → Bool) (set : Nat → α → α) (value : Int)
    (records : List α) : Except DatabaseError (Nat × List α) :=
  if 0 ≤ value || (records.filter test).isEmpty then
    .ok ((records.filter test).length, replaceWhere test (set value.toNat) records)
  else .error (.checkViolation table)

def setAttendance (membership : MembershipId) (value : Int) : Statement Nat := fun c =>
  (setCounter .rankings (fun r => decide (r.membershipId = membership))
    (fun n r => { r with attendance := n }) value c.rankings).map fun (n, rankings) =>
      (n, { c with rankings })

def setRebuys (event : EventId) (value : Int) : Statement Nat := fun c =>
  (setCounter .events (fun e => decide (e.id = event))
    (fun n e => { e with rebuys := n }) value c.events).map fun (n, events) =>
      (n, { c with events })

def setPlacement (participant : ParticipantId) (value : Int) : Statement Nat := fun c =>
  (setCounter .participants (fun p => decide (p.id = participant))
    (fun n p => { p with placement := n }) value c.participants).map fun (n, participants) =>
      (n, { c with participants })

end Statement

namespace Club

def removeParticipants (c : Club) (test : Participant → Bool) : Club :=
  { c with participants := c.participants.filter fun p => !test p }

def removeRankings (c : Club) (test : Ranking → Bool) : Club :=
  { c with rankings := c.rankings.filter fun r => !test r }

def removeEvents (c : Club) (test : Event → Bool) : Club :=
  let gone := (c.events.filter test).map (·.id)
  { c.removeParticipants (fun p => gone.contains p.eventId) with
    events := c.events.filter fun e => !test e }

/-- Removes the memberships that pass a test, with their participants and rankings. -/
def removeMemberships (c : Club) (test : Membership → Bool) : Club :=
  let gone := (c.memberships.filter test).map (·.id)
  { (c.removeParticipants (fun p => gone.contains p.membershipId)).removeRankings
      (fun r => gone.contains r.membershipId) with
    memberships := c.memberships.filter fun m => !test m }

/-- Removes the semesters that pass a test, with their events and memberships. -/
def removeSemesters (c : Club) (test : SemesterRow → Bool) : Club :=
  let gone := (c.semesters.filter test).map (·.id)
  { (c.removeEvents (fun e => gone.contains e.semesterId)).removeMemberships
      (fun m => gone.contains m.semesterId) with
    semesters := c.semesters.filter fun s => !test s }

end Club

end CardClub
