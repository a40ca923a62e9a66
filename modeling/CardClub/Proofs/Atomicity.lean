import CardClub.Proofs.Composition
import CardClub.Proofs.Statement

/-!
# Service calls are all or nothing

A service call that fails leaves every table as it was. Calls that write more than once are
transactions; the others read, write with a single statement, and cannot fail after it.
-/

namespace CardClub

namespace Service

open Work

variable (stamp : Stamp)

theorem quiet_refuse (fault : Option RequestError) : Quiet (refuse fault) := by
  cases fault
  · exact quiet_pure
  · exact quiet_fail

theorem quiet_getSemester (semester : SemesterId) : Quiet (getSemester semester) := by
  have hstore : Quiet (Store.getSemester semester) := by
    apply quiet_read.bind
    intro row
    cases row
    · exact quiet_pure
    · exact quiet_ofExcept
  exact (hstore.mapError _).bind fun _ => quiet_require

theorem quiet_getMembership (membership : MembershipId) : Quiet (getMembership membership) :=
  (quiet_read.mapError _).bind fun _ => quiet_require

theorem quiet_getEvent (event : EventId) : Quiet (getEvent event) :=
  (quiet_read.mapError _).bind fun _ => quiet_require

theorem quiet_listEvents (semester : SemesterId) : Quiet (listEvents semester) :=
  (quiet_getSemester semester).bind fun _ => quiet_read.mapError _

theorem quiet_listParticipants (event : EventId) : Quiet (listParticipants event) :=
  (quiet_getEvent event).bind fun _ => quiet_read.mapError _

theorem quiet_getRanking (semester : SemesterId) (membership : MembershipId) :
    Quiet (getRanking semester membership) := by
  have hstore : Quiet (Store.getPosition semester membership) := by
    apply quiet_read.bind
    intro row
    cases row
    · exact quiet_pure
    · exact quiet_ofExcept
  exact (hstore.mapError _).bind fun _ => quiet_require

theorem quiet_listRankings (semester : SemesterId) : Quiet (listRankings semester) :=
  (quiet_read.mapError _).bind fun _ => quiet_pure

/-- The row of a new semester can be read, so opening one cannot fail once the row is written. -/
theorem atomic_insertSemester (terms : SemesterTerms) :
    Atomic (Store.insertSemester stamp terms) := by
  refine atomic_write.bind_of_ok fun {s row t} hrun => ?_
  obtain ⟨-, -, -, hbudget, -⟩ :=
    Statement.insertSemester_ok (write_yields.mp (regular_write.yields hrun))
  obtain ⟨semester, hread⟩ : ∃ semester, row.read = .ok semester := by
    simp [SemesterRow.read, hbudget]
  exact ⟨semester, t, by rw [hread]; rfl⟩

theorem atomic_createSemester (terms : SemesterTerms) : Atomic (createSemester stamp terms) :=
  (quiet_refuse _).bind_atomic fun _ => (atomic_insertSemester stamp terms).mapError _

theorem atomic_createEvent (plan : EventPlan) : Atomic (createEvent stamp plan) :=
  (quiet_refuse _).bind_atomic fun _ => (quiet_getSemester _).bind_atomic fun _ =>
    atomic_write.mapError _

theorem atomic_updateEvent (event : EventId) (update : EventUpdate) :
    Atomic (updateEvent event update) :=
  (quiet_refuse _).bind_atomic fun _ => atomic_transaction

theorem atomic_updateRanking (membership : MembershipId) (delta : Int) :
    Atomic (updateRanking membership delta) := by
  have hstore : Atomic (Store.updateRanking membership delta) :=
    atomic_write.bind_of_ok fun _ => ⟨_, _, rfl⟩
  exact hstore.mapError _

theorem atomic_batchUpdateRankings (deltas : List (MembershipId × Int)) :
    Atomic (batchUpdateRankings deltas) := by
  have hstore : Atomic (Store.batchUpdateRankings deltas) := by
    unfold Store.batchUpdateRankings
    split
    · exact quiet_pure.atomic
    · exact atomic_write
  exact hstore.mapError _

end Service

theorem ServiceCall.atomic (stamp : Stamp) (call : ServiceCall) : (call.run stamp).Atomic := by
  cases call with
  | createSemester terms => exact (Service.atomic_createSemester stamp terms).map _
  | getSemester s => exact (Service.quiet_getSemester s).atomic.map _
  | createMembership => exact Work.atomic_transaction.map _
  | getMembership m => exact (Service.quiet_getMembership m).atomic.map _
  | createEvent plan => exact (Service.atomic_createEvent stamp plan).map _
  | getEvent e => exact (Service.quiet_getEvent e).atomic.map _
  | listEvents s => exact (Service.quiet_listEvents s).atomic.map _
  | updateEvent e update => exact (Service.atomic_updateEvent e update).map _
  | enterEvent => exact Work.atomic_transaction.map _
  | signOut => exact Work.atomic_transaction.map _
  | signIn => exact Work.atomic_transaction.map _
  | listParticipants e => exact (Service.quiet_listParticipants e).atomic.map _
  | endEvent => exact Work.atomic_transaction.map _
  | undoEndEvent => exact Work.atomic_transaction.map _
  | newRebuy => exact Work.atomic_transaction.map _
  | updateRanking m delta => exact (Service.atomic_updateRanking m delta).map _
  | batchUpdateRankings deltas => exact (Service.atomic_batchUpdateRankings deltas).map _
  | getRanking s m => exact (Service.quiet_getRanking s m).atomic.map _
  | listRankings s => exact (Service.quiet_listRankings s).atomic.map _

end CardClub
