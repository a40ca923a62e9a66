import CardClub.Proofs.BudgetLedger
import CardClub.Proofs.Reading

/-!
# Answers and what is read afterwards

A call that makes or changes a record answers with the record. Reading it right afterwards gives the
same, for the answer is the row that was written or has the same fields; of a sign-out this is said
of all fields but the time. The budget that a paid membership leaves is exact, and it is read
exactly if it fits a decimal.
-/

namespace CardClub

open Work

namespace Reply

/-- Whether reading what an answer shows gives the answer again. -/
def Reread (s : Session) : Reply → Prop
  | semester x => (Service.getSemester x.id).run s = (.ok x, s)
  | membership m => (Service.getMembership m.id).run s = (.ok m, s)
  | event e => (Service.getEvent e.id).run s = (.ok e, s)
  | participant p => ∃ listing, (Service.listParticipants p.eventId).run s = (.ok listing, s) ∧
      listing.filter (fun q => decide (q.id = p.id)) = [p]
  | _ => False

theorem Reread.participant_unique {s : Session} {p q : Participant}
    (hp : (participant p).Reread s) (hq : (participant q).Reread s) (hid : q.id = p.id)
    (hevent : q.eventId = p.eventId) : p = q := by
  obtain ⟨listing, hlisting, hentry⟩ := hp
  obtain ⟨listing', hlisting', hentry'⟩ := hq
  rw [hevent, hlisting] at hlisting'
  obtain rfl := Except.ok.inj (congrArg Prod.fst hlisting')
  rw [hid, hentry] at hentry'
  exact List.head_eq_of_cons_eq hentry'

/-- An answer with what the table keeps of the sign-out time. -/
def kept : Reply → Reply
  | participant p => participant { p with signedOutAt := p.signedOutAt.map Instant.stored }
  | reply => reply

end Reply

variable {s : Session} {c c₁ : Club} {stamp : Stamp}

/-! ## Rows that are read -/

theorem SemesterRow.budget_of_read {row : SemesterRow} {x : Semester} (h : row.read = .ok x) :
    row.budget.toDecimal? = some x.currentBudget := by
  unfold read at h
  split at h
  · next hbudget =>
    obtain rfl := Except.ok.inj h
    exact hbudget
  · cases h

namespace Club.Consistent

theorem semester_reread (hc : s.club.Consistent) {row : SemesterRow} {x : Semester}
    (hrow : row ∈ s.club.semesters) (hread : row.read = .ok x) : (Reply.semester x).Reread s := by
  obtain ⟨hid, -⟩ := SemesterRow.read_ok hread
  have hfind : s.club.semester? x.id = some row := hid ▸ find?_key hc.semester_ids hrow
  rw [Reply.Reread, Service.getSemester_run, hfind, Option.elim_some, hread]
  rfl

theorem membership_reread (hc : s.club.Consistent) {m : Membership}
    (hm : m ∈ s.club.memberships) : (Reply.membership m).Reread s := by
  have hfind : s.club.membership? m.id = some m := find?_key hc.membership_ids hm
  rw [Reply.Reread, Service.getMembership_run, hfind, Option.elim_some]

theorem event_reread (hc : s.club.Consistent) {e : Event} (he : e ∈ s.club.events) :
    (Reply.event e).Reread s := by
  rw [Reply.Reread, Service.getEvent_run, hc.event?_of_mem he, Option.elim_some]

/-- A participant is listed once, and as the table has it. -/
theorem participant_reread (hc : s.club.Consistent) {p : Participant}
    (hp : p ∈ s.club.participants) : (Reply.participant p).Reread s := by
  obtain ⟨e, he, hevent⟩ := List.mem_map.mp (hc.participant_event p hp)
  have hfind : s.club.event? p.eventId = some e := hevent ▸ hc.event?_of_mem he
  have hmem : p ∈ s.club.participantsOf p.eventId :=
    mem_participantsOf.mpr (mem_field.mpr ⟨hp, rfl⟩)
  refine ⟨s.club.participantsOf p.eventId, ?_, filter_key (hc.participantsOf_ids _) hmem⟩
  rw [Service.listParticipants_run, Service.getEvent_run, hfind]
  rfl

end Club.Consistent

/-! ## Fraction digits of budgets

What is paid into a budget is a decimal, so no budget ever gets more fraction digits than a decimal
has.
-/

def Club.ShortBudgets (c : Club) : Prop := ∀ row ∈ c.semesters, row.budget.scale ≤ 28

theorem Statement.adjustBudget_short {id : SemesterId} {amount : Decimal} {answer : Option Amount}
    (hst : adjustBudget id amount c = .ok (answer, c₁)) (h : c.ShortBudgets) :
    c₁.ShortBudgets := by
  cases answer with
  | none =>
      simp only [adjustBudget] at hst
      split at hst
      · obtain ⟨-, rfl⟩ := Prod.mk.inj (Except.ok.inj hst)
        exact h
      · simp at hst
  | some budget =>
      obtain ⟨row, hrow, rfl, rfl⟩ := adjustBudget_some hst
      refine forall_mem_replaceWhere h fun x _ _ => ?_
      exact Amount.scale_add_le (h row (mem_of_find?_key hrow).1) (Amount.scale_ofDecimal_le amount)

theorem Written.shortBudgets {c c' : Club} (hw : Written c c') (h : c.ShortBudgets) :
    c'.ShortBudgets := by
  cases hw with
  | insertSemester hst =>
      obtain ⟨-, -, -, hbudget, -, -, -, -, rfl⟩ := Statement.insertSemester_ok hst
      exact forall_mem_concat h (hbudget ▸ Amount.scale_ofDecimal_le _)
  | adjustBudget hst => exact Statement.adjustBudget_short hst h
  | insertMembership hst =>
      obtain ⟨-, -, -, -, rfl⟩ := Statement.insertMembership_ok hst
      exact h
  | insertEvent hst =>
      obtain ⟨-, -, -, -, rfl⟩ := Statement.insertEvent_ok hst
      exact h
  | updateEvent hst =>
      rcases Statement.updateEvent_ok hst with ⟨-, -, rfl⟩ | ⟨e, row, -, -, -, -, rfl⟩
      · exact h
      · exact h
  | setState hst =>
      rcases Statement.setState_ok hst with ⟨-, -, rfl⟩ | ⟨e, -, -, rfl⟩
      · exact h
      · exact h
  | incrementRebuys hst =>
      rcases Statement.incrementRebuys_ok hst with ⟨-, -, rfl⟩ | ⟨e, -, -, -, rfl⟩
      · exact h
      · exact h
  | insertParticipant hst =>
      obtain ⟨-, -, -, -, -, rfl⟩ := Statement.insertParticipant_ok hst
      exact h
  | setSignedOutAt hst | forceSignOut hst | setPlacements _ hst =>
      obtain ⟨-, rfl⟩ := Statement.changeParticipants_ok hst
      exact h
  | creditRankings hst =>
      obtain ⟨-, -, rankings, -, rfl⟩ := Statement.creditRankings_ok.mp hst
      exact h

theorem Session.shortBudgets_after {steps : List Step} (hsteps : ∀ x ∈ steps, x.isProgram = true) :
    (start.after steps).club.ShortBudgets :=
  after_keeps (fun _ _ hcall => (Step.composed_of_isProgram hcall).preserves Written.shortBudgets)
    hsteps fun _ hrow => absurd hrow List.not_mem_nil

/-! ## The calls -/

namespace Service

theorem createSemester_reread (hc : s.club.Consistent) {terms : SemesterTerms} {x : Semester}
    (h : (createSemester stamp terms).Yields c x s.club) : (Reply.semester x).Reread s := by
  obtain ⟨-, row, hst, hread⟩ := createSemester_yields.mp h
  obtain ⟨-, -, -, -, -, -, -, -, hclub⟩ := Statement.insertSemester_ok hst
  exact hc.semester_reread (by simp [hclub]) hread

theorem createMembership_reread (hc : s.club.Consistent) {semester : SemesterId} {user : UserId}
    {paid discounted : Bool} {m : Membership}
    (h : (createMembership stamp semester user paid discounted).Yields c m s.club) :
    (Reply.membership m).Reread s := by
  obtain ⟨terms, -, c₁, hst, hfee⟩ := createMembership_yields.mp h
  obtain ⟨-, -, -, -, rfl⟩ := Statement.insertMembership_ok hst
  apply hc.membership_reread
  cases hpaid : m.paid with
  | true =>
      rw [hpaid, if_pos rfl] at hfee
      obtain ⟨budget, hadjust, -⟩ := hfee
      obtain ⟨row, -, -, hclub⟩ := Statement.adjustBudget_some hadjust
      simp [hclub]
  | false =>
      rw [hpaid, if_neg (by decide)] at hfee
      simp [← hfee]

theorem createEvent_reread (hc : s.club.Consistent) {plan : EventPlan} {e : Event}
    (h : (createEvent stamp plan).Yields c e s.club) : (Reply.event e).Reread s := by
  obtain ⟨-, -, hst⟩ := createEvent_yields.mp h
  obtain ⟨-, -, -, -, hclub⟩ := Statement.insertEvent_ok hst
  exact hc.event_reread (by simp [hclub])

theorem updateEvent_reread (hc : s.club.Consistent) {event : EventId} {update : EventUpdate}
    {row : Event} (h : (updateEvent event update).Yields c row s.club) :
    (Reply.event row).Reread s := by
  obtain ⟨-, e, he, -, hst⟩ := updateEvent_yields.mp h
  obtain ⟨hmem, -⟩ := Statement.event?_eq_some he
  rcases Statement.updateEvent_ok hst with ⟨-, hnone, -⟩ | ⟨e', row', he', hrow, -, hsome, hclub⟩
  · cases hnone
  · obtain rfl := Option.some.inj hsome
    obtain rfl := Option.some.inj (he.symm.trans he')
    have hid : row.id = e.id := hrow ▸ rfl
    exact hc.event_reread (hclub ▸ mem_replaceWhere.mpr ⟨e, hmem, if_pos (by simp [hid])⟩)

theorem enterEvent_reread (hc : s.club.Consistent) {event : EventId} {membership : MembershipId}
    {p : Participant} (h : (enterEvent stamp event membership).Yields c p s.club) :
    (Reply.participant p).Reread s := by
  obtain ⟨-, -, -, -, -, -, hst⟩ := enterEvent_yields.mp h
  obtain ⟨-, -, -, -, -, hclub⟩ := Statement.insertParticipant_ok hst
  exact hc.participant_reread (by simp [hclub])

/-- The listing has what the table keeps of the time that was set. -/
theorem setSignedOutAt_reread (hc : s.club.Consistent) {id : ParticipantId}
    {time : Option Instant} {p : Participant}
    (h : (setSignedOutAt id time).Yields c p s.club) : (Reply.participant p).kept.Reread s := by
  obtain ⟨q, hq, -, -, -, ⟨n, hst, -⟩, rfl⟩ := setSignedOutAt_yields.mp h
  obtain ⟨hmem, rfl⟩ := mem_of_find?_key hq
  obtain ⟨-, hclub⟩ := Statement.changeParticipants_ok hst
  apply hc.participant_reread
  rw [hclub]
  exact mem_replaceWhere.mpr ⟨q, hmem, if_pos (decide_eq_true rfl)⟩

theorem setSignedOutAt_listed (hc : s.club.Consistent) {id : ParticipantId}
    {time : Option Instant} {p : Participant}
    (h : (setSignedOutAt id time).Yields c p s.club) :
    ∃ listed : Participant, (Reply.participant listed).Reread s ∧
      { listed with signedOutAt := p.signedOutAt } = p :=
  ⟨_, setSignedOutAt_reread hc h, rfl⟩

theorem getSemester_of_budget {semester : SemesterId} {row : SemesterRow} {budget : Decimal}
    (hrow : s.club.semester? semester = some row) (hbudget : row.budget.toDecimal? = some budget) :
    ∃ x, (getSemester semester).run s = (.ok x, s) ∧ x.currentBudget = budget := by
  rw [getSemester_run, hrow, Option.elim_some, SemesterRow.read, hbudget]
  exact ⟨_, rfl, rfl⟩

/-- The fee of a paid membership is in the budget that is stored, and the budget is read as what the
stored one is as a decimal. -/
theorem createMembership_budget {semester : SemesterId} {user : UserId} {paid discounted : Bool}
    {m : Membership}
    (h : (createMembership stamp semester user paid discounted).Yields c m s.club) :
    ∃ row row' x, c.semester? semester = some row ∧ s.club.semester? semester = some row' ∧
      (getSemester semester).run s = (.ok x, s) ∧
      row'.budget.value =
        row.budget.value + (if paid then (row.feeFor discounted).value else 0) ∧
      row'.budget.toDecimal? = some x.currentBudget := by
  obtain ⟨terms, ⟨row, hrow, hread⟩, c₁, hst, hfee⟩ := createMembership_yields.mp h
  obtain ⟨-, -, -, hm, hclub₁⟩ := Statement.insertMembership_ok hst
  obtain ⟨hpaid, hdiscounted⟩ : m.paid = paid ∧ m.discounted = discounted := hm ▸ ⟨rfl, rfl⟩
  have hrow₁ : c₁.semester? semester = some row := by rw [hclub₁]; exact hrow
  rw [hpaid, hdiscounted] at hfee
  cases paid with
  | true =>
      obtain ⟨budget, hadjust, d, hd⟩ := hfee
      obtain ⟨row₂, hrow₂, hbudget, hclub⟩ := Statement.adjustBudget_some hadjust
      obtain rfl : row = row₂ := Option.some.inj (hrow₁.symm.trans hrow₂)
      have hfind : s.club.semester? semester =
          (c₁.semester? semester).map fun x => { x with budget } :=
        hclub ▸ find?_replaceWhere_self fun _ h => h
      have hrow' : s.club.semester? semester = some { row with budget } := by
        rw [hfind, hrow₁, Option.map_some]
      obtain ⟨x, hx, hcurrent⟩ := getSemester_of_budget hrow' hd
      have hterms := (SemesterRow.read_ok hread).2
      refine ⟨row, _, x, hrow, hrow', hx, ?_, hcurrent ▸ hd⟩
      rw [hbudget, Amount.value_add, Amount.value_ofDecimal, if_pos rfl, hterms]
  | false =>
      obtain rfl : c₁ = s.club := hfee
      have hbudget := SemesterRow.budget_of_read hread
      obtain ⟨x, hx, hcurrent⟩ := getSemester_of_budget hrow₁ hbudget
      exact ⟨row, row, x, hrow, hrow₁, hx, by simp, hcurrent ▸ hbudget⟩

end Service

/-- Whether a call answers with the row that it has written. -/
def ServiceCall.showsRow : ServiceCall → Bool
  | createSemester _ | createMembership .. | createEvent _ | updateEvent .. | enterEvent ..
  | signIn _ => true
  | _ => false

theorem ServiceCall.reread (hc : s.club.Consistent) {call : ServiceCall} {reply : Reply}
    (h : (call.run stamp).Yields c reply s.club) (hcall : call.showsRow = true) :
    reply.Reread s := by
  cases call with
  | createSemester terms =>
      obtain ⟨x, hx, rfl⟩ := map_yields.mp h
      exact Service.createSemester_reread hc hx
  | createMembership semester user paid discounted =>
      obtain ⟨m, hm, rfl⟩ := map_yields.mp h
      exact Service.createMembership_reread hc hm
  | createEvent plan =>
      obtain ⟨e, he, rfl⟩ := map_yields.mp h
      exact Service.createEvent_reread hc he
  | updateEvent event update =>
      obtain ⟨e, he, rfl⟩ := map_yields.mp h
      exact Service.updateEvent_reread hc he
  | enterEvent event membership =>
      obtain ⟨p, hp, rfl⟩ := map_yields.mp h
      exact Service.enterEvent_reread hc hp
  | signIn id =>
      obtain ⟨p, hp, rfl⟩ := map_yields.mp h
      obtain ⟨q, -, e, -, -, -, rfl⟩ := Service.setSignedOutAt_yields.mp hp
      exact Service.setSignedOutAt_reread hc hp
  | _ => cases hcall

/-- After every history, a call that opens a semester, joins it, announces or amends an event,
enters one or signs in again answers with what reading gives right afterwards, in every field. A
sign-out answers with what the only entry for it in the listing has, in every field but the sign-out
time. A membership adds its fee, if it is paid, to the budget that is stored of its semester, and
the budget that is read afterwards is the decimal of this one: the same amount if it fits a decimal.
-/
theorem answers_read_back {steps : List Step} (hsteps : ∀ x ∈ steps, x.isProgram = true)
    {stamp : Stamp} {call : ServiceCall} {reply : Reply} {s' : Session}
    (hrun : (call.run stamp).run (Session.start.after steps) = (.ok reply, s')) :
    (call.showsRow = true → reply.Reread s') ∧
    (∀ id, call = .signOut id → ∃ p listed : Participant, reply = .participant p ∧
      (Reply.participant listed).Reread s' ∧ { listed with signedOutAt := p.signedOutAt } = p) ∧
    ∀ semester user paid discounted, call = .createMembership semester user paid discounted →
      ∃ row row' x, (Session.start.after steps).club.semester? semester = some row ∧
        s'.club.semester? semester = some row' ∧
        (Service.getSemester semester).run s' = (.ok x, s') ∧
        row'.budget.value =
          row.budget.value + (if paid then (row.feeFor discounted).value else 0) ∧
        row'.budget.toDecimal? = some x.currentBudget ∧
        (row'.budget.coefficient.natAbs < coefficientLimit →
          x.currentBudget.value = row'.budget.value) := by
  have hyields := (call.composed stamp).regular.yields hrun
  have hc : s'.club.Consistent :=
    (call.composed stamp).consistent hyields (Session.consistent_after hsteps)
  have hshort := (call.composed stamp).preserves Written.shortBudgets _
    (Session.shortBudgets_after hsteps)
  rw [hrun] at hshort
  refine ⟨ServiceCall.reread hc hyields, ?_, ?_⟩
  · rintro id rfl
    obtain ⟨p, hp, rfl⟩ := map_yields.mp hyields
    obtain ⟨listed, hlisted, hsame⟩ := Service.setSignedOutAt_listed hc hp
    exact ⟨p, listed, rfl, hlisted, hsame⟩
  · rintro semester user paid discounted rfl
    obtain ⟨m, hm, rfl⟩ := map_yields.mp hyields
    obtain ⟨row, row', x, hrow, hrow', hx, hvalue, hbudget⟩ := Service.createMembership_budget hm
    refine ⟨row, row', x, hrow, hrow', hx, hvalue, hbudget, fun hcoefficient => ?_⟩
    have hscale : row'.budget.scale ≤ 28 := hshort row' (mem_of_find?_key hrow').1
    obtain ⟨d, hd, hsame⟩ := Amount.toDecimal?_of_fits hcoefficient hscale
    obtain rfl := Option.some.inj (hd.symm.trans hbudget)
    exact hsame

/-! ## Two members of a season

One has paid the fee of 20 into a budget of 500. The other one plays on the small night and signs
out at a time that is given to the nanosecond.
-/

theorem paid_fee_read_back :
    let s := Session.start.after (Season.steps.take 1)
    let call : ServiceCall := .createMembership ⟨Night.uuid 1⟩ ⟨Night.uuid 91⟩ true false
    let run := (call.run ⟨Night.uuid 2, Night.time 2⟩).run s
    let m : Membership :=
      ⟨⟨Night.uuid 2⟩, ⟨Night.uuid 1⟩, ⟨Night.uuid 91⟩, true, false, Night.time 2⟩
    run.1 = .ok (.membership m) ∧ (Reply.membership m).Reread run.2 ∧
      ∃ x, (Service.getSemester ⟨Night.uuid 1⟩).run run.2 = (.ok x, run.2) ∧
        x.currentBudget.value = 520 := by
  intro s call run m
  have hanswer : run.1 = .ok (.membership m) := by rfl
  have hrun : run = (.ok (.membership m), run.2) := Prod.ext hanswer rfl
  obtain ⟨hreread, -, hbudget⟩ := answers_read_back (by decide +kernel) hrun
  obtain ⟨-, row', x, -, hrow', hx, -, -, hvalue⟩ := hbudget _ _ _ _ rfl
  have hstored : run.2.club.semester? ⟨Night.uuid 1⟩ =
      some { Season.row with budget := ⟨52000, 2⟩ } := by decide +kernel
  obtain rfl := Option.some.inj (hrow'.symm.trans hstored)
  refine ⟨hanswer, hreread rfl, x, hx, ?_⟩
  rw [hvalue (by decide +kernel)]
  decide +kernel

namespace Unkept

open Night (uuid time)

/-- A budget of 10^28, to which a fee of five cents is paid. -/
def terms : SemesterTerms :=
  ⟨"Autumn", time 0, time 100, (Decimal.ofParts? (10 ^ 28) 0).getD .zero, Season.amount 5,
    Season.amount 3, .one⟩

def steps : List Step := [.call ⟨uuid 1, time 1⟩ (.service (.createSemester terms))]

def semester : Semester := ⟨terms, ⟨uuid 1⟩, terms.initialBudget, time 1⟩

def leaver : Participant :=
  ⟨⟨uuid 6⟩, ⟨uuid 3⟩, ⟨uuid 4⟩, 0, Instant.ofParts? 70 123456789, time 6⟩

end Unkept

/-- A decimal has no room for the cents of a budget of 29 digits, so the fee is not in what is read,
and the answer to a sign-out has nanoseconds that the listing has not. -/
theorem fee_and_nanoseconds_not_read_back :
    let s := Session.start.after Unkept.steps
    let joined := (Service.createMembership ⟨Night.uuid 2, Night.time 2⟩ ⟨Night.uuid 1⟩
      ⟨Night.uuid 91⟩ true false).run s
    let time := (Instant.ofParts? 70 123456789).getD .epoch
    let left := (Service.signOut time ⟨Night.uuid 6⟩).run
      (Session.start.after (Night.steps (Night.time 50)))
    (∃ m x y, (Service.getSemester ⟨Night.uuid 1⟩).run s = (.ok x, s) ∧
      joined.1 = .ok m ∧ m.paid = true ∧
      (Service.getSemester ⟨Night.uuid 1⟩).run joined.2 = (.ok y, joined.2) ∧
      y.currentBudget.value ≠ x.currentBudget.value + x.membershipFee.value) ∧
    ∃ p, left.1 = .ok p ∧ ¬ (Reply.participant p).Reread left.2 := by
  intro s joined time left
  refine ⟨⟨⟨⟨Night.uuid 2⟩, ⟨Night.uuid 1⟩, ⟨Night.uuid 91⟩, true, false, Night.time 2⟩,
    Unkept.semester, Unkept.semester, by rfl, by rfl, rfl, by decide +kernel, by decide +kernel⟩,
    ?_⟩
  have hanswer : left.1 = .ok Unkept.leaver := by decide +kernel
  have hyields := (Service.composed_setSignedOutAt ⟨Night.uuid 6⟩ (some time)).regular.yields
    (Prod.ext hanswer rfl)
  have hc : left.2.club.Consistent :=
    (Service.composed_setSignedOutAt _ _).consistent hyields
      (Session.consistent_after (by decide +kernel))
  -- the listing has the time cut to microseconds, and no other entry of this participant
  have hkept := Service.setSignedOutAt_reread hc hyields
  refine ⟨Unkept.leaver, hanswer, fun hreread => ?_⟩
  have hsame := congrArg Participant.signedOutAt (hreread.participant_unique hkept rfl rfl)
  exact absurd hsame (by decide +kernel)

end CardClub
