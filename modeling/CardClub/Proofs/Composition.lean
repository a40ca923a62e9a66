import CardClub.Call
import CardClub.Proofs.Running

/-!
# How calls are composed

All that services and stores do is put together from reading, from a few statements and from the
combinators of work. `Written` lists the statements, `Composed` the combinators; that each call is
composed is proved once, and what holds of every composed work then holds of every call.
-/

namespace CardClub

/-- The tables after one statement of a service or a store. -/
inductive Written (c : Club) : Club → Prop where
  | insertSemester {id now terms row c'}
      (h : Statement.insertSemester id now terms c = .ok (row, c')) :
      Written c c'
  | adjustBudget {id amount budget c'} (h : Statement.adjustBudget id amount c = .ok (budget, c')) :
      Written c c'
  | insertMembership {m row c'} (h : Statement.insertMembership m c = .ok (row, c')) : Written c c'
  | insertEvent {id now plan row c'} (h : Statement.insertEvent id now plan c = .ok (row, c')) :
      Written c c'
  | updateEvent {id update answer c'} (h : Statement.updateEvent id update c = .ok (answer, c')) :
      Written c c'
  | setState {id state n c'} (h : Statement.setState id state c = .ok (n, c')) : Written c c'
  | incrementRebuys {id answer c'} (h : Statement.incrementRebuys id c = .ok (answer, c')) :
      Written c c'
  | insertParticipant {id now event membership row c'}
      (h : Statement.insertParticipant id now event membership c = .ok (row, c')) : Written c c'
  | setSignedOutAt {id time n c'} (h : Statement.setSignedOutAt id time c = .ok (n, c')) :
      Written c c'
  | forceSignOut {event time n c'} (h : Statement.forceSignOut event time c = .ok (n, c')) :
      Written c c'
  | setPlacements {placements n c'} (hsmall : ∀ x ∈ placements, x.2 < counterLimit)
      (h : Statement.setPlacements placements c = .ok (n, c')) : Written c c'
  | creditRankings {deltas n c'} (h : Statement.creditRankings deltas c = .ok (n, c')) :
      Written c c'

/-- Work that is put together from the combinators and writes by the listed statements only. -/
inductive Composed : {ε α : Type} → Work ε α → Prop where
  | give {ε α : Type} {a : α} : Composed (.give a : Work ε α)
  | fail {ε α : Type} {e : ε} : Composed (.fail e : Work ε α)
  | read {ε α : Type} {view : Club → α} : Composed (.read view : Work ε α)
  | write {α : Type} {table : Table} {statement : Statement α}
      (h : ∀ {c a c'}, statement c = .ok (a, c') → Written c c') : Composed (.write table statement)
  | bind {ε α β : Type} {w : Work ε α} {next : α → Work ε β} :
      Composed w → (∀ a, Composed (next a)) → Composed (w >>= next)
  | mapError {ε δ α : Type} {f : δ → ε} {w : Work δ α} : Composed w → Composed (w.mapError f)
  | transaction {α : Type} {body : Work ServiceError α} :
      Composed body → Composed (.transaction body)

namespace Composed

variable {ε δ α β : Type} {w : Work ε α}

theorem regular (h : Composed w) : w.Regular := by
  induction h with
  | give => exact Work.regular_give
  | fail => exact Work.regular_fail
  | read => exact Work.regular_read
  | write => exact Work.regular_write
  | bind _ _ hw hnext => exact hw.bind hnext
  | mapError _ hw => exact hw.mapError _
  | transaction _ hbody => exact hbody.transaction

theorem preserves {P : Club → Prop} (hP : ∀ {c c'}, Written c c' → P c → P c') (h : Composed w) :
    w.Preserves P := by
  induction h with
  | give => exact Work.quiet_pure.preserves
  | fail => exact Work.quiet_fail.preserves
  | read => exact Work.quiet_read.preserves
  | write hst => exact Work.preserves_write fun h => hP (hst h)
  | bind _ _ hw hnext => exact hw.bind hnext
  | mapError _ hw => exact hw.mapError _
  | transaction _ hbody => exact hbody.transaction

theorem keeps {P : Club → Prop} (hP : ∀ {c c'}, Written c c' → P c → P c') (h : Composed w)
    {c c' : Club} {a : α} (hyields : w.Yields c a c') (hc : P c) : P c' := by
  have hkept := h.preserves hP ⟨c, none⟩ hc
  rwa [hyields] at hkept

theorem pure {a : α} : Composed (Pure.pure a : Work ε α) := .give

theorem map (h : Composed w) (f : α → β) : Composed (f <$> w) := h.bind fun _ => .give

theorem failIf {condition : Bool} {e : ε} : Composed (.failIf condition e) := by
  cases condition
  · exact .give
  · exact .fail

theorem require {value : Option α} {e : ε} : Composed (.require value e) := by
  cases value
  · exact .fail
  · exact .give

theorem ofExcept {f : δ → ε} {r : Except δ α} : Composed (.ofExcept f r) := by
  cases r
  · exact .fail
  · exact .give

end Composed

/-! ## Stores -/

namespace Store

variable (stamp : Stamp)

theorem composed_insertSemester (terms : SemesterTerms) : Composed (insertSemester stamp terms) :=
  .bind (.write .insertSemester) fun _ => .ofExcept

theorem composed_getSemester (semester : SemesterId) : Composed (getSemester semester) := by
  refine .bind .read fun row => ?_
  cases row
  · exact .pure
  · exact .ofExcept

theorem composed_adjustBudget (semester : SemesterId) (amount : Decimal) :
    Composed (adjustBudget semester amount) :=
  .bind (.write .adjustBudget) fun _ => .bind .require fun _ => .require

theorem composed_insertMembership (semester : SemesterId) (user : UserId) (paid discounted : Bool) :
    Composed (insertMembership stamp semester user paid discounted) :=
  .write .insertMembership

theorem composed_insertEvent (plan : EventPlan) : Composed (insertEvent stamp plan) :=
  .write .insertEvent

theorem composed_updateEvent (event : EventId) (update : EventUpdate) :
    Composed (updateEvent event update) :=
  .write .updateEvent

theorem composed_setState (event : EventId) (state : EventState) :
    Composed (setState event state) :=
  .bind (.write .setState) fun _ => .failIf

theorem composed_incrementRebuys (event : EventId) : Composed (incrementRebuys event) :=
  .bind (.write .incrementRebuys) fun _ => .require

theorem composed_insertParticipant (event : EventId) (membership : MembershipId) :
    Composed (insertParticipant stamp event membership) :=
  .write .insertParticipant

theorem composed_setSignedOutAt (participant : ParticipantId) (time : Option Instant) :
    Composed (setSignedOutAt participant time) :=
  .bind (.write .setSignedOutAt) fun _ => .failIf

theorem composed_forceSignOut (event : EventId) (time : Instant) :
    Composed (forceSignOut event time) :=
  .write .forceSignOut

theorem composed_setPlacements (placements : List (ParticipantId × Nat)) :
    Composed (setPlacements placements) := by
  unfold setPlacements
  split
  · exact .fail
  · next hnone =>
    split
    · exact .pure
    · refine .write fun h => .setPlacements (fun x hx => ?_) h
      have hfits : fitsCounter x.2 = true := by simpa using List.find?_eq_none.mp hnone x hx
      have hlt := (fitsCounter_iff.mp hfits).2
      omega

theorem composed_updateRanking (membership : MembershipId) (delta : Int) :
    Composed (updateRanking membership delta) :=
  .bind (.write .creditRankings) fun _ => .read

theorem composed_batchUpdateRankings (deltas : List (MembershipId × Int)) :
    Composed (batchUpdateRankings deltas) := by
  unfold batchUpdateRankings
  split
  · exact .pure
  · exact .write .creditRankings

theorem composed_getPosition (semester : SemesterId) (membership : MembershipId) :
    Composed (getPosition semester membership) := by
  refine .bind .read fun row => ?_
  cases row
  · exact .pure
  · exact .ofExcept

end Store

/-! ## Services -/

namespace Service

variable (stamp : Stamp)

theorem composed_refuse (fault : Option RequestError) : Composed (refuse fault) := by
  cases fault
  · exact .pure
  · exact .fail

theorem composed_getSemester (semester : SemesterId) : Composed (getSemester semester) :=
  .bind (.mapError (Store.composed_getSemester semester)) fun _ => .require

theorem composed_createSemester (terms : SemesterTerms) : Composed (createSemester stamp terms) :=
  .bind (composed_refuse _) fun _ => .mapError (Store.composed_insertSemester stamp terms)

theorem composed_getMembership (membership : MembershipId) : Composed (getMembership membership) :=
  .bind (.mapError .read) fun _ => .require

theorem composed_createMembership (semester : SemesterId) (user : UserId) (paid discounted : Bool) :
    Composed (createMembership stamp semester user paid discounted) := by
  refine .transaction <| .bind (composed_getSemester semester) fun _ =>
    .bind (.mapError (Store.composed_insertMembership stamp semester user paid discounted))
      fun m => ?_
  split
  · exact .bind (.mapError (Store.composed_adjustBudget _ _)) fun _ => .pure
  · exact .pure

theorem composed_getEvent (event : EventId) : Composed (getEvent event) :=
  .bind (.mapError .read) fun _ => .require

theorem composed_createEvent (plan : EventPlan) : Composed (createEvent stamp plan) :=
  .bind (composed_refuse _) fun _ => .bind (composed_getSemester _) fun _ =>
    .mapError (Store.composed_insertEvent stamp plan)

theorem composed_listEvents (semester : SemesterId) : Composed (listEvents semester) :=
  .bind (composed_getSemester semester) fun _ => .mapError .read

theorem composed_updateEvent (event : EventId) (update : EventUpdate) :
    Composed (updateEvent event update) :=
  .bind (composed_refuse _) fun _ => .transaction <| .bind (composed_getEvent event) fun _ =>
    .bind .failIf fun _ =>
      .bind (.mapError (Store.composed_updateEvent event update)) fun _ => .require

theorem composed_enterEvent (event : EventId) (membership : MembershipId) :
    Composed (enterEvent stamp event membership) :=
  .transaction <| .bind (composed_getEvent event) fun _ => .bind .failIf fun _ =>
    .bind (composed_getMembership membership) fun _ => .bind .failIf fun _ =>
      .mapError (Store.composed_insertParticipant stamp event membership)

theorem composed_setSignedOutAt (participant : ParticipantId) (time : Option Instant) :
    Composed (setSignedOutAt participant time) :=
  .transaction <| .bind (.mapError .read) fun _ => .bind .require fun p =>
    .bind (composed_getEvent p.eventId) fun _ => .bind .failIf fun _ =>
      .bind (.mapError (Store.composed_setSignedOutAt participant time)) fun _ => .pure

theorem composed_listParticipants (event : EventId) : Composed (listParticipants event) :=
  .bind (composed_getEvent event) fun _ => .mapError .read

theorem composed_applyToRankings (plan : List Award) : Composed (applyToRankings plan) :=
  .bind .ofExcept fun _ => .bind (.mapError (Store.composed_batchUpdateRankings _)) fun _ => .pure

theorem composed_endEvent (event : EventId) : Composed (endEvent event) :=
  .transaction <| .bind (composed_getEvent event) fun e => .bind .failIf fun _ =>
    .bind (.mapError (Store.composed_forceSignOut event e.startDate)) fun _ =>
      .bind (.mapError (Store.composed_setState event .ended)) fun _ =>
        .bind (.mapError .read) fun _ =>
        .bind .ofExcept fun _ => .bind (composed_applyToRankings _) fun _ =>
          .bind (.mapError (Store.composed_setPlacements _)) fun _ => .pure

theorem composed_undoEndEvent (event : EventId) : Composed (undoEndEvent event) :=
  .transaction <| .bind (composed_getEvent event) fun _ => .bind .failIf fun _ =>
    .bind (.mapError .read) fun _ => .bind .ofExcept fun _ =>
      .bind (composed_applyToRankings _) fun _ =>
      .bind (.mapError (Store.composed_setState event .started)) fun _ => .pure

theorem composed_newRebuy (event : EventId) : Composed (newRebuy event) :=
  .transaction <| .bind (composed_getEvent event) fun _ => .bind .failIf fun _ =>
    .bind (.mapError (Store.composed_incrementRebuys event)) fun _ =>
      .bind (composed_getSemester _) fun _ =>
        .bind (.mapError (Store.composed_adjustBudget _ _)) fun _ => .pure

theorem composed_getRanking (semester : SemesterId) (membership : MembershipId) :
    Composed (getRanking semester membership) :=
  .bind (.mapError (Store.composed_getPosition semester membership)) fun _ => .require

theorem composed_listRankings (semester : SemesterId) : Composed (listRankings semester) :=
  .bind (.mapError .read) fun _ => .pure

end Service

theorem ServiceCall.composed (stamp : Stamp) (call : ServiceCall) : Composed (call.run stamp) := by
  cases call with
  | createSemester terms => exact (Service.composed_createSemester stamp terms).map _
  | getSemester s => exact (Service.composed_getSemester s).map _
  | createMembership s user paid discounted =>
      exact (Service.composed_createMembership stamp s user paid discounted).map _
  | getMembership m => exact (Service.composed_getMembership m).map _
  | createEvent plan => exact (Service.composed_createEvent stamp plan).map _
  | getEvent e => exact (Service.composed_getEvent e).map _
  | listEvents s => exact (Service.composed_listEvents s).map _
  | updateEvent e update => exact (Service.composed_updateEvent e update).map _
  | enterEvent e m => exact (Service.composed_enterEvent stamp e m).map _
  | signOut p => exact (Service.composed_setSignedOutAt p (some stamp.now)).map _
  | signIn p => exact (Service.composed_setSignedOutAt p none).map _
  | listParticipants e => exact (Service.composed_listParticipants e).map _
  | endEvent e => exact (Service.composed_endEvent e).map _
  | undoEndEvent e => exact (Service.composed_undoEndEvent e).map _
  | newRebuy e => exact (Service.composed_newRebuy e).map _
  | updateRanking m delta => exact (Store.composed_updateRanking m delta).mapError.map _
  | batchUpdateRankings deltas => exact (Store.composed_batchUpdateRankings deltas).mapError.map _
  | getRanking s m => exact (Service.composed_getRanking s m).map _
  | listRankings s => exact (Service.composed_listRankings s).map _

theorem StoreCall.composed (stamp : Stamp) (call : StoreCall) : Composed (call.run stamp) := by
  cases call with
  | insertSemester terms => exact (Store.composed_insertSemester stamp terms).map _
  | getSemester s => exact (Store.composed_getSemester s).map _
  | adjustBudget s amount => exact (Store.composed_adjustBudget s amount).map _
  | insertMembership s user paid discounted =>
      exact (Store.composed_insertMembership stamp s user paid discounted).map _
  | insertEvent plan => exact (Store.composed_insertEvent stamp plan).map _
  | updateEvent e update => exact (Store.composed_updateEvent e update).map _
  | setState e state => exact (Store.composed_setState e state).map _
  | incrementRebuys e => exact (Store.composed_incrementRebuys e).map _
  | insertParticipant e m => exact (Store.composed_insertParticipant stamp e m).map _
  | setSignedOutAt p time => exact (Store.composed_setSignedOutAt p time).map _
  | forceSignOut e time => exact (Store.composed_forceSignOut e time).map _
  | setPlacements placements => exact (Store.composed_setPlacements placements).map _
  | updateRanking m delta => exact (Store.composed_updateRanking m delta).map _
  | batchUpdateRankings deltas => exact (Store.composed_batchUpdateRankings deltas).map _
  | getPosition s m => exact (Store.composed_getPosition s m).map _
  | getMembership | getEvent | listEvents | getParticipant | listParticipants | getRanking =>
      exact Composed.read.map _

end CardClub
