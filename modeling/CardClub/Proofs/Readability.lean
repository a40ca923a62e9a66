import CardClub.Proofs.FailedCalls
import CardClub.Proofs.Reading

/-!
# Whatever is written can be read

Columns are wider than what is read from them: a state is a word, a counter has a sign, a running
budget may have any number of digits. Services write only what reads back. A budget that cannot be
read makes the transaction fail that would have written it, and the other columns are in range in
consistent tables. So a read gives a value or finds nothing, as long as positions can be counted.
-/

namespace CardClub

open Work

variable {ρ α β : Type}

/-! ## Reading row by row -/

namespace Store

/-- Looks for a row and decodes it. -/
def decode? (row : Club → Option ρ) (decode : ρ → Except RowError α) :
    Work StoreError (Option α) := do
  match ← .read row with
  | none => pure none
  | some row => .ofExcept .unreadable ((decode row).map some)

/-- Decodes rows one after the other. The first one that cannot be read is the error. -/
def decodeAll (rows : Club → List ρ) (decode : ρ → Except RowError α) :
    Work StoreError (List α) := do
  .ofExcept .unreadable ((← .read rows).mapM decode)

end Store

namespace Service

def decodeEvent (event : EventId) : Work ServiceError Event := do
  found .event event.uuid
    (← store (Store.decode? (fun c => (c.event? event).map EventRow.ofEvent) EventRow.read))

def decodeEvents (semester : SemesterId) : Work ServiceError (List Event) := do
  let _ ← getSemester semester
  store (Store.decodeAll (fun c => (c.eventsOf semester).map EventRow.ofEvent) EventRow.read)

def decodeParticipants (event : EventId) : Work ServiceError (List Participant) := do
  let _ ← decodeEvent event
  store (Store.decodeAll (fun c => (c.participantsOf event).map ParticipantRow.ofParticipant)
    ParticipantRow.read)

def decodeRankings (semester : SemesterId) : Work ServiceError (List RankingPosition) := do
  return competitionPositions (← store
    (Store.decodeAll (fun c => (c.rankingsOf semester).map RankingRow.ofRanking) RankingRow.read))

end Service

/-- A call with every row decoded that it reads. -/
def ServiceCall.decoded (stamp : Stamp) : ServiceCall → Work ServiceError Reply
  | getEvent event => Reply.event <$> Service.decodeEvent event
  | listEvents semester => Reply.events <$> Service.decodeEvents semester
  | listParticipants event => Reply.participants <$> Service.decodeParticipants event
  | listRankings semester => Reply.positions <$> Service.decodeRankings semester
  | call => call.run stamp

namespace Work

variable {s : Session} {ε δ : Type}

theorem bind_congr_run {w w' : Work ε α} {next next' : α → Work ε β} (hw : w.run s = w'.run s)
    (hquiet : (w.run s).2 = s) (hnext : ∀ a, (next a).run s = (next' a).run s) :
    (w >>= next).run s = (w' >>= next').run s := by
  rw [bind_run, bind_run, ← hw]
  rcases hr : w.run s with ⟨r, after⟩
  rw [hr] at hquiet
  obtain rfl := hquiet
  cases r with
  | ok a => exact hnext a
  | error e => rfl

theorem mapError_congr_run {f : δ → ε} {w w' : Work δ α} (hw : w.run s = w'.run s) :
    (w.mapError f).run s = (w'.mapError f).run s := by
  rw [mapError_run, mapError_run, hw]

theorem map_congr_run {f : α → β} {w w' : Work ε α} (hw : w.run s = w'.run s) :
    (f <$> w).run s = (f <$> w').run s := by
  change (w >>= fun a => pure (f a)).run s = (w' >>= fun a => pure (f a)).run s
  rw [bind_run, bind_run, hw]

/-- The work gives a value or finds nothing, and leaves the session as it is. -/
def Answers (w : Work ServiceError α) (s : Session) : Prop :=
  (∃ a, w.run s = (.ok a, s)) ∨ ∃ entity id, w.run s = (.error (.notFound entity id), s)

theorem Answers.map {w : Work ServiceError α} (h : w.Answers s) (f : α → β) :
    (f <$> w).Answers s := by
  have hmap : (f <$> w).run s = (w >>= fun a => pure (f a)).run s := rfl
  rcases h with ⟨a, ha⟩ | ⟨entity, id, hnone⟩
  · refine .inl ⟨f a, ?_⟩
    rw [hmap, bind_run, ha]
    rfl
  · refine .inr ⟨entity, id, ?_⟩
    rw [hmap, bind_run, hnone]

/-- What follows a read that answers is an answer. -/
theorem Answers.of_run {w : Work ServiceError α} {w' : Work ServiceError β} {f : α → β}
    (h : w.Answers s) (hw' : w'.run s = ((w.run s).1.map f, s)) : w'.Answers s := by
  rcases h with ⟨a, ha⟩ | ⟨entity, id, hnone⟩
  · exact .inl ⟨f a, by rw [hw', ha]; rfl⟩
  · exact .inr ⟨entity, id, by rw [hw', hnone]; rfl⟩

end Work

namespace Store

variable {s : Session} {encode : α → ρ} {decode : ρ → Except RowError α}

theorem mapM_decode {l : List α} (h : ∀ a ∈ l, decode (encode a) = .ok a) :
    (l.map encode).mapM decode = .ok l := by
  induction l with
  | nil => rfl
  | cons a l ih =>
      obtain ⟨ha, hl⟩ := List.forall_mem_cons.mp h
      rw [List.map_cons, mapM_cons_ok]
      exact ⟨a, l, ha, ih hl, rfl⟩

theorem decode?_run {view : Club → Option α}
    (h : ∀ a, view s.club = some a → decode (encode a) = .ok a) :
    (decode? (fun c => (view c).map encode) decode).run s = (Work.read view).run s := by
  rw [decode?, bind_run, read_run, read_run]
  cases hview : view s.club with
  | none => rfl
  | some a =>
      simp only [Option.map_some, h a hview]
      rfl

theorem decodeAll_run {view : Club → List α} (h : ∀ a ∈ view s.club, decode (encode a) = .ok a) :
    (decodeAll (fun c => (view c).map encode) decode).run s = (Work.read view).run s := by
  rw [decodeAll, bind_run, read_run, read_run]
  dsimp only
  rw [mapM_decode h]
  rfl

end Store

/-! ## What the tables hold -/

namespace Club

variable {c c' : Club}

theorem counterLimit_le_countLimit : counterLimit ≤ countLimit := by decide

/-- All running budgets can be read. -/
def Legible (c : Club) : Prop := ∀ row ∈ c.semesters, row.budget.toDecimal?.isSome = true

/-- Every row decodes, to the record that it was made of. -/
structure Decodable (c : Club) : Prop where
  semesters : ∀ row ∈ c.semesters, ∃ s, row.read = .ok s
  events : ∀ e ∈ c.events, (EventRow.ofEvent e).read = .ok e
  participants : ∀ p ∈ c.participants, (ParticipantRow.ofParticipant p).read = .ok p
  rankings : ∀ r ∈ c.rankings, (RankingRow.ofRanking r).read = .ok r

theorem Consistent.decodable (hc : c.Consistent) (hlegible : c.Legible) : c.Decodable := by
  have hcount {n : Nat} (h : n < counterLimit) : n < countLimit :=
    Nat.lt_of_lt_of_le h counterLimit_le_countLimit
  constructor
  · intro row hrow
    obtain ⟨budget, hbudget⟩ := Option.isSome_iff_exists.mp (hlegible row hrow)
    rw [SemesterRow.read, hbudget]
    exact ⟨_, rfl⟩
  · exact fun e he => EventRow.read_ofEvent (hcount (hc.events_admissible e he).rebuys)
  · exact fun p hp => ParticipantRow.read_ofParticipant (hcount (hc.placements_small p hp))
  · exact fun r hr => RankingRow.read_ofRanking (hcount (hc.rankings_admissible r hr).attendance)

theorem Legible.replaceBudget (h : c.Legible) {test : SemesterRow → Bool} {budget : Amount}
    (hbudget : budget.toDecimal?.isSome = true) :
    ∀ row ∈ replaceWhere test (fun row => { row with budget }) c.semesters,
      row.budget.toDecimal?.isSome = true :=
  forall_mem_replaceWhere h fun _ _ _ => hbudget

end Club

open Club

variable {c c' : Club} {stamp : Stamp} {call : ServiceCall}

theorem ServiceCall.Effect.legible (h : call.Effect stamp c c') (hc : c.Consistent)
    (hlegible : c.Legible) : c'.Legible := by
  cases h with
  | looked | announced | amended | entered | signedOut | signedIn | adjusted | adjustedAll =>
      exact hlegible
  | semesterOpened hst =>
      obtain ⟨-, -, -, hbudget, -⟩ := Statement.insertSemester_ok hst
      apply forall_mem_concat hlegible
      rw [hbudget, Amount.toDecimal?_ofDecimal]
      rfl
  | @joined semester user paid discounted row m semesters hrow hst hfee =>
      cases paid with
      | false =>
          obtain rfl := hfee
          exact hlegible
      | true =>
          -- the fee is paid only if the budget with it can be read
          obtain ⟨hbudget, rfl⟩ := hfee
          exact hlegible.replaceBudget hbudget
  | ended hyields =>
      obtain ⟨e, awards, deltas, rankings, -, -, -, -, -, -, -, rfl⟩ :=
        (Service.endEvent_yields hc).mp hyields
      exact hlegible
  | endUndone hyields =>
      obtain ⟨e, deltas, rankings, -, -, -, -, -, rfl⟩ :=
        (Service.undoEndEvent_yields hc).mp hyields
      exact hlegible
  | rebought he hopen hcount hrow hbudget => exact hlegible.replaceBudget hbudget

namespace Session

variable {s : Session}

theorem legible_after {steps : List Step} (hsteps : ∀ x ∈ steps, x.isService = true) :
    (start.after steps).club.Legible := by
  apply service_log (P := fun _ c => c.Legible) ?_ ?_ ?_ hsteps
  · exact fun row hrow => absurd hrow List.not_mem_nil
  · exact fun hlegible _ => hlegible
  · exact fun hc hlegible hyields => (ServiceCall.effect hyields).legible hc hlegible

theorem decodable_after {steps : List Step} (hsteps : ∀ x ∈ steps, x.isService = true) :
    (start.after steps).club.Decodable := by
  have hc : (start.after steps).club.Consistent :=
    consistent_after fun x hx => Step.isProgram_of_isService (hsteps x hx)
  exact hc.decodable (legible_after hsteps)

/-! ## What the reads answer -/

theorem getSemester_answers (h : s.club.Decodable) (semester : SemesterId) :
    (Service.getSemester semester).Answers s := by
  rw [Answers, Service.getSemester_run]
  cases hrow : s.club.semester? semester with
  | none => exact .inr ⟨_, _, rfl⟩
  | some row =>
      obtain ⟨hmem, -⟩ := mem_of_find?_key hrow
      obtain ⟨t, ht⟩ := h.semesters row hmem
      refine .inl ⟨t, ?_⟩
      rw [Option.elim_some, ht]
      rfl

theorem getEvent_answers (event : EventId) : (Service.getEvent event).Answers s := by
  rw [Answers, Service.getEvent_run]
  cases s.club.event? event with
  | none => exact .inr ⟨_, _, rfl⟩
  | some e => exact .inl ⟨e, rfl⟩

theorem getMembership_answers (membership : MembershipId) :
    (Service.getMembership membership).Answers s := by
  rw [Answers, Service.getMembership_run]
  cases s.club.membership? membership with
  | none => exact .inr ⟨_, _, rfl⟩
  | some m => exact .inl ⟨m, rfl⟩

theorem getRanking_answers {semester : SemesterId}
    (hsmall : (s.club.rankingsOf semester).length < countLimit) (membership : MembershipId) :
    (Service.getRanking semester membership).Answers s := by
  rw [Answers, Service.getRanking_run hsmall]
  cases (s.club.rankingsOf semester).find? fun r => decide (r.membershipId = membership) with
  | none => exact .inr ⟨_, _, rfl⟩
  | some r => exact .inl ⟨_, rfl⟩

theorem read_answers (h : s.club.Decodable)
    (hsmall : ∀ semester, (s.club.rankingsOf semester).length < countLimit) {call : ServiceCall}
    (hread : call.isRead = true) (stamp : Stamp) : (call.run stamp).Answers s := by
  cases call with
  | getSemester semester => exact (getSemester_answers h semester).map _
  | getMembership membership => exact (getMembership_answers membership).map _
  | getEvent event => exact (getEvent_answers event).map _
  | listEvents semester =>
      exact ((getSemester_answers h semester).of_run Service.listEvents_run).map _
  | listParticipants event =>
      exact ((getEvent_answers event).of_run Service.listParticipants_run).map _
  | getRanking semester membership =>
      exact (getRanking_answers (hsmall semester) membership).map _
  | listRankings semester =>
      have hlist : (Service.listRankings semester).Answers s := .inl ⟨_, Service.listRankings_run⟩
      exact hlist.map _
  | _ => cases hread

theorem decodeEvent_run (h : s.club.Decodable) (event : EventId) :
    (Service.decodeEvent event).run s = (Service.getEvent event).run s := by
  have hrow : (Store.decode? (fun c => (c.event? event).map EventRow.ofEvent) EventRow.read).run s =
      (Store.getEvent event).run s :=
    Store.decode?_run fun e he => h.events e (Statement.event?_eq_some he).1
  exact bind_congr_run (mapError_congr_run hrow) (congrArg Prod.snd (mapError_congr_run hrow))
    fun _ => rfl

theorem decoded_run (h : s.club.Decodable) (call : ServiceCall) (stamp : Stamp) :
    (call.decoded stamp).run s = (call.run stamp).run s := by
  cases call with
  | getEvent event => exact map_congr_run (decodeEvent_run h event)
  | listEvents semester =>
      apply map_congr_run
      apply bind_congr_run rfl (by rw [Service.getSemester_run])
      intro _
      apply mapError_congr_run
      refine Store.decodeAll_run fun e he => ?_
      exact h.events e (List.mem_of_mem_filter (List.mem_mergeSort.mp he))
  | listParticipants event =>
      apply map_congr_run
      apply bind_congr_run (decodeEvent_run h event)
        (by rw [decodeEvent_run h, Service.getEvent_run])
      intro _
      apply mapError_congr_run
      exact Store.decodeAll_run fun p hp =>
        h.participants p (mem_field.mp (mem_participantsOf.mp hp)).1
  | listRankings semester =>
      have hrows : (Store.decodeAll (fun c => (c.rankingsOf semester).map RankingRow.ofRanking)
          RankingRow.read).run s = (Store.listRankings semester).run s :=
        Store.decodeAll_run fun r hr => h.rankings r (List.mem_of_mem_filter hr)
      apply map_congr_run
      exact bind_congr_run (mapError_congr_run hrows)
        (congrArg Prod.snd (mapError_congr_run hrows)) fun _ => rfl
  | _ => rfl

end Session

/-- After every history of services, each row decodes. As long as no semester has more rankings than
positions, each read gives a value or finds nothing, and decoding every row that it reads makes no
difference. -/
theorem reads_never_break {steps : List Step} (hsteps : ∀ x ∈ steps, x.isService = true) :
    let s := Session.start.after steps
    s.club.Decodable ∧ ((∀ semester, (s.club.rankingsOf semester).length < countLimit) →
      ∀ stamp call, ServiceCall.isRead call = true →
        ((∃ reply, (call.decoded stamp).run s = (.ok reply, s)) ∨
          ∃ entity id, (call.decoded stamp).run s = (.error (.notFound entity id), s)) ∧
        (call.run stamp).run s = (call.decoded stamp).run s) := by
  intro s
  have h : s.club.Decodable := Session.decodable_after hsteps
  refine ⟨h, fun hsmall stamp call hread => ?_⟩
  have hsame := Session.decoded_run h call stamp
  refine ⟨?_, hsame.symm⟩
  rw [hsame]
  exact Session.read_answers h hsmall hread stamp

theorem full_budget_reads :
    let steps := FullBudget.steps ++ [.call FullBudget.stamp (.service FullBudget.rebuy)]
    let s := Session.start.after steps
    let read := (ServiceCall.getSemester ⟨Night.uuid 1⟩).decoded FullBudget.stamp
    ((FullBudget.rebuy.run FullBudget.stamp).run (Session.start.after FullBudget.steps)).1 =
        .error FullBudget.unreadable ∧ s.club.Decodable ∧
      ((∃ reply, read.run s = (.ok reply, s)) ∨
        ∃ entity id, read.run s = (.error (.notFound entity id), s)) := by
  intro steps s read
  have hnone : s.club.rankings = [] := by decide +kernel
  have hsmall : ∀ semester, (s.club.rankingsOf semester).length < countLimit := by
    intro semester
    rw [Club.rankingsOf, hnone, List.filter_nil]
    decide
  obtain ⟨hdecodable, hreads⟩ := reads_never_break
    (by decide +kernel : ∀ x ∈ steps, x.isService = true)
  exact ⟨by rfl, hdecodable, (hreads hsmall FullBudget.stamp _ rfl).1⟩

end CardClub
