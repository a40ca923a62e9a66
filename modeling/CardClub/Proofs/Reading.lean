import CardClub.Proofs.Leaderboard

/-!
# What reading answers

Each read looks at a part of the tables and leaves the session as it is. What it answers depends on
that part only.
-/

namespace CardClub.Service

open Work

variable {α : Type} {s : Session} {semester : SemesterId} {membership : MembershipId}
  {event : EventId}

theorem found_run (entity : Entity) (id : Uuid) (row : Option α) (s : Session) :
    (found entity id row).run s = (row.elim (.error (.notFound entity id)) .ok, s) := by
  cases row <;> rfl

theorem getSemester_run : (getSemester semester).run s =
    ((s.club.semester? semester).elim (.error (.notFound .semester semester.uuid))
      fun row => row.read.mapError .ofStore, s) := by
  rw [getSemester, bind_run, store, mapError_run, Store.getSemester, bind_run, read_run]
  cases s.club.semester? semester with
  | none => rfl
  | some row =>
      dsimp only [Option.elim_some]
      cases row.read <;> rfl

theorem getMembership_run : (getMembership membership).run s =
    ((s.club.membership? membership).elim (.error (.notFound .membership membership.uuid)) .ok,
      s) :=
  found_run _ _ _ s

theorem getEvent_run : (getEvent event).run s =
    ((s.club.event? event).elim (.error (.notFound .event event.uuid)) .ok, s) :=
  found_run _ _ _ s

/-- A view of the tables that follows a read is shown if the read succeeds. -/
theorem bind_read_run {β : Type} {w : Work ServiceError α} (hw : (w.run s).2 = s)
    (view : Club → β) :
    (w >>= fun _ => store (.read view)).run s = ((w.run s).1.map fun _ => view s.club, s) := by
  rw [bind_run]
  rcases hr : w.run s with ⟨r, after⟩
  rw [hr] at hw
  obtain rfl := hw
  cases r <;> rfl

theorem listEvents_run : (listEvents semester).run s =
    (((getSemester semester).run s).1.map fun _ => s.club.eventsOf semester, s) := by
  apply bind_read_run
  rw [getSemester_run]

theorem listParticipants_run : (listParticipants event).run s =
    (((getEvent event).run s).1.map fun _ => s.club.participantsOf event, s) := by
  apply bind_read_run
  rw [getEvent_run]

end CardClub.Service
