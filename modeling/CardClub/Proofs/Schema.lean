import CardClub.Proofs.Composition
import CardClub.Proofs.Credit

/-!
# Consistency of the tables

The tables are consistent: keys do not repeat, references lead to records that exist, and fees,
multipliers, counters and points are in their ranges. Each statement keeps this, so every call of a
service or a store does, whether it succeeds or fails.
-/

namespace CardClub

/-- No fee is below zero, and the semester does not end before it starts. -/
structure SemesterTerms.Admissible (terms : SemesterTerms) : Prop where
  membershipFee : terms.membershipFee.isNegative = false
  discountedFee : terms.discountedFee.isNegative = false
  rebuyFee : terms.rebuyFee.isNegative = false
  dates : terms.startDate ≤ terms.endDate

/-- The multiplier and the rebuys are in range, and the start is a time that the table keeps. -/
structure Event.Admissible (e : Event) : Prop where
  multiplier : e.multiplier.isNegative = false
  rebuys : e.rebuys < counterLimit
  startDate : e.startDate.stored = e.startDate

/-- Points and attendance are in range. -/
structure Ranking.Admissible (r : Ranking) : Prop where
  points : fitsPoints r.points = true
  attendance : r.attendance < counterLimit

/-- Keys do not repeat, references lead to existing records, and numbers are in range. -/
structure Club.Consistent (c : Club) : Prop where
  semester_ids : (c.semesters.map (·.id)).Nodup
  membership_ids : (c.memberships.map (·.id)).Nodup
  event_ids : (c.events.map (·.id)).Nodup
  participant_ids : (c.participants.map (·.id)).Nodup
  ranking_ids : (c.rankings.map (·.membershipId)).Nodup
  membership_keys : (c.memberships.map fun m => (m.semesterId, m.userId)).Nodup
  participant_keys : (c.participants.map fun p => (p.membershipId, p.eventId)).Nodup
  membership_semester : ∀ m ∈ c.memberships, m.semesterId ∈ c.semesters.map (·.id)
  event_semester : ∀ e ∈ c.events, e.semesterId ∈ c.semesters.map (·.id)
  participant_membership : ∀ p ∈ c.participants, p.membershipId ∈ c.memberships.map (·.id)
  participant_event : ∀ p ∈ c.participants, p.eventId ∈ c.events.map (·.id)
  ranking_membership : ∀ r ∈ c.rankings, r.membershipId ∈ c.memberships.map (·.id)
  semesters_admissible : ∀ s ∈ c.semesters, s.toSemesterTerms.Admissible
  events_admissible : ∀ e ∈ c.events, e.Admissible
  placements_small : ∀ p ∈ c.participants, p.placement < counterLimit
  rankings_admissible : ∀ r ∈ c.rankings, r.Admissible

theorem counterLimit_pos : 0 < counterLimit := by decide

theorem nodup_map_concat {α κ : Type} {key : α → κ} {l : List α} {a : α} (hl : (l.map key).Nodup)
    (ha : key a ∉ l.map key) : ((l ++ [a]).map key).Nodup := by
  rw [List.map_append, List.nodup_append]
  refine ⟨hl, List.nodup_singleton _, ?_⟩
  rintro k hk k' hk' rfl
  rw [List.map_singleton, List.mem_singleton] at hk'
  exact ha (hk' ▸ hk)

theorem mem_map_concat {α κ : Type} {key : α → κ} {l : List α} {a : α} {k : κ}
    (hk : k ∈ l.map key) : k ∈ (l ++ [a]).map key := by
  rw [List.map_append]
  exact List.mem_append_left _ hk

theorem forall_mem_concat {α : Type} {P : α → Prop} {l : List α} {a : α} (hl : ∀ b ∈ l, P b)
    (ha : P a) : ∀ b ∈ l ++ [a], P b := by
  intro b hb
  rcases List.mem_append.mp hb with hb | hb
  · exact hl b hb
  · exact List.mem_singleton.mp hb ▸ ha

namespace Club.Consistent

variable {c c' : Club}

theorem empty : Club.empty.Consistent := by
  constructor <;> simp [Club.empty]

theorem event?_of_mem (h : c.Consistent) {e : Event} (he : e ∈ c.events) : c.event? e.id = some e :=
  find?_key h.event_ids he

/-! ## What the statements keep -/

theorem insertSemester (h : c.Consistent) {id : SemesterId} {now : Instant} {terms : SemesterTerms}
    {row : SemesterRow} (hst : Statement.insertSemester id now terms c = .ok (row, c')) :
    c'.Consistent := by
  obtain ⟨hid, rfl, -, -, hm, hd, hr, hdates, rfl⟩ := Statement.insertSemester_ok hst
  exact { h with
    semester_ids := nodup_map_concat h.semester_ids hid
    membership_semester := fun m hm => mem_map_concat (h.membership_semester m hm)
    event_semester := fun e he => mem_map_concat (h.event_semester e he)
    semesters_admissible := forall_mem_concat h.semesters_admissible ⟨hm, hd, hr, hdates⟩ }

theorem adjustBudget (h : c.Consistent) {id : SemesterId} {amount : Decimal}
    {answer : Option Amount}
    (hst : Statement.adjustBudget id amount c = .ok (answer, c')) : c'.Consistent := by
  obtain ⟨budget, rfl⟩ := Statement.adjustBudget_ok hst
  have hids : (replaceWhere (fun s : SemesterRow => decide (s.id = id)) (fun s => { s with budget })
      c.semesters).map (·.id) = c.semesters.map (·.id) := map_replaceWhere fun _ _ _ => rfl
  exact { h with
    semester_ids := hids ▸ h.semester_ids
    membership_semester := fun m hm => hids ▸ h.membership_semester m hm
    event_semester := fun e he => hids ▸ h.event_semester e he
    semesters_admissible := forall_mem_replaceWhere h.semesters_admissible
      fun s hs _ => h.semesters_admissible s hs }

theorem insertMembership (h : c.Consistent) {m row : Membership}
    (hst : Statement.insertMembership m c = .ok (row, c')) : c'.Consistent := by
  obtain ⟨hid, hkey, hsemester, rfl, rfl⟩ := Statement.insertMembership_ok hst
  exact { h with
    membership_ids := nodup_map_concat h.membership_ids hid
    membership_keys := nodup_map_concat h.membership_keys hkey
    membership_semester := forall_mem_concat h.membership_semester hsemester
    participant_membership := fun p hp => mem_map_concat (h.participant_membership p hp)
    ranking_membership := fun r hr => mem_map_concat (h.ranking_membership r hr) }

theorem insertEvent (h : c.Consistent) {id : EventId} {now : Instant} {plan : EventPlan}
    {row : Event}
    (hst : Statement.insertEvent id now plan c = .ok (row, c')) : c'.Consistent := by
  obtain ⟨hid, hsemester, hmult, rfl, rfl⟩ := Statement.insertEvent_ok hst
  exact { h with
    event_ids := nodup_map_concat h.event_ids hid
    event_semester := forall_mem_concat h.event_semester hsemester
    participant_event := fun p hp => mem_map_concat (h.participant_event p hp)
    events_admissible := forall_mem_concat h.events_admissible
      ⟨hmult, counterLimit_pos, Instant.stored_stored plan.startDate⟩ }

theorem putEvent (h : c.Consistent) {id : EventId} {e row : Event} (he : c.event? id = some e)
    (hsemester : row.semesterId = e.semesterId) (hrow : row.Admissible) :
    (Statement.putEvent c row).Consistent := by
  obtain ⟨hmem, -⟩ := Statement.event?_eq_some he
  have hids : (replaceWhere (fun x => decide (x.id = row.id)) (fun _ => row) c.events).map (·.id) =
      c.events.map (·.id) := map_replaceWhere fun _ _ hx => (of_decide_eq_true hx).symm
  exact { h with
    event_ids := hids ▸ h.event_ids
    event_semester := forall_mem_replaceWhere h.event_semester
      fun _ _ _ => hsemester ▸ h.event_semester e hmem
    participant_event := fun p hp => hids ▸ h.participant_event p hp
    events_admissible := forall_mem_replaceWhere h.events_admissible fun _ _ _ => hrow }

theorem updateEvent (h : c.Consistent) {id : EventId} {update : EventUpdate} {answer : Option Event}
    (hst : Statement.updateEvent id update c = .ok (answer, c')) : c'.Consistent := by
  rcases Statement.updateEvent_ok hst with ⟨-, -, rfl⟩ | ⟨e, row, he, rfl, hmult, -, rfl⟩
  · exact h
  · have hadm := h.events_admissible e (Statement.event?_eq_some he).1
    refine h.putEvent he rfl ⟨hmult, hadm.rebuys, ?_⟩
    cases hstart : update.startDate with
    | none => simpa [EventUpdate.apply, hstart] using hadm.startDate
    | some t => simp [EventUpdate.apply, hstart]

theorem setState (h : c.Consistent) {id : EventId} {state : EventState} {n : Nat}
    (hst : Statement.setState id state c = .ok (n, c')) : c'.Consistent := by
  rcases Statement.setState_ok hst with ⟨-, -, rfl⟩ | ⟨e, he, -, rfl⟩
  · exact h
  · have hadm := h.events_admissible e (Statement.event?_eq_some he).1
    exact h.putEvent he rfl ⟨hadm.multiplier, hadm.rebuys, hadm.startDate⟩

theorem incrementRebuys (h : c.Consistent) {id : EventId} {answer : Option Nat}
    (hst : Statement.incrementRebuys id c = .ok (answer, c')) : c'.Consistent := by
  rcases Statement.incrementRebuys_ok hst with ⟨-, -, rfl⟩ | ⟨e, he, hlt, -, rfl⟩
  · exact h
  · have hadm := h.events_admissible e (Statement.event?_eq_some he).1
    exact h.putEvent he rfl ⟨hadm.multiplier, hlt, hadm.startDate⟩

theorem insertParticipant (h : c.Consistent) {id : ParticipantId} {now : Instant} {event : EventId}
    {membership : MembershipId} {row : Participant}
    (hst : Statement.insertParticipant id now event membership c = .ok (row, c')) :
    c'.Consistent := by
  obtain ⟨hid, hkey, hm, he, rfl, rfl⟩ := Statement.insertParticipant_ok hst
  exact { h with
    participant_ids := nodup_map_concat h.participant_ids hid
    participant_keys := nodup_map_concat h.participant_keys hkey
    participant_membership := forall_mem_concat h.participant_membership hm
    participant_event := forall_mem_concat h.participant_event he
    placements_small := forall_mem_concat h.placements_small counterLimit_pos }

theorem changeParticipants (h : c.Consistent) {test : Participant → Bool}
    {change : Participant → Participant} {n : Nat}
    (hst : Statement.changeParticipants test change c = .ok (n, c'))
    (hid : ∀ p, (change p).id = p.id)
    (hm : ∀ p, (change p).membershipId = p.membershipId) (he : ∀ p, (change p).eventId = p.eventId)
    (hsmall : ∀ p ∈ c.participants, test p = true → (change p).placement < counterLimit) :
    c'.Consistent := by
  obtain ⟨-, rfl⟩ := Statement.changeParticipants_ok hst
  have hids : (replaceWhere test change c.participants).map (·.id) = c.participants.map (·.id) :=
    map_replaceWhere fun p _ _ => hid p
  have hkeys :
      (replaceWhere test change c.participants).map (fun p => (p.membershipId, p.eventId)) =
      c.participants.map fun p => (p.membershipId, p.eventId) :=
    map_replaceWhere fun p _ _ => by simp only [hm p, he p]
  exact { h with
    participant_ids := hids ▸ h.participant_ids
    participant_keys := hkeys ▸ h.participant_keys
    participant_membership := forall_mem_replaceWhere h.participant_membership
      fun p hp _ => (hm p).symm ▸ h.participant_membership p hp
    participant_event := forall_mem_replaceWhere h.participant_event
      fun p hp _ => (he p).symm ▸ h.participant_event p hp
    placements_small := forall_mem_replaceWhere h.placements_small hsmall }

theorem setPlacements (h : c.Consistent) {placements : List (ParticipantId × Nat)} {n : Nat}
    (hsmall : ∀ x ∈ placements, x.2 < counterLimit)
    (hst : Statement.setPlacements placements c = .ok (n, c')) : c'.Consistent := by
  apply h.changeParticipants hst (fun _ => rfl) (fun _ => rfl) (fun _ => rfl)
  intro p _ htest
  obtain ⟨k, hk⟩ := Option.isSome_iff_exists.mp htest
  obtain ⟨x, hx, rfl⟩ := Option.map_eq_some_iff.mp hk
  simp only [hk, Option.getD_some]
  exact hsmall x (List.mem_of_find?_eq_some hx)

end Club.Consistent

theorem Club.Consistent.creditRankings {c c' : Club} (h : c.Consistent)
    {deltas : List (MembershipId × Int)} {n : Nat}
    (hst : Statement.creditRankings deltas c = .ok (n, c')) : c'.Consistent := by
  obtain ⟨hmem, -, rankings, hfold, rfl⟩ := Statement.creditRankings_ok.mp hst
  have hkeys : ∀ m ∈ rankings.map (·.membershipId), m ∈ c.memberships.map (·.id) := by
    intro m hm
    rcases (mem_keys_creditAll hfold).mp hm with hold | hnew
    · obtain ⟨r, hr, rfl⟩ := List.mem_map.mp hold
      exact h.ranking_membership r hr
    · obtain ⟨d, hd, rfl⟩ := List.mem_map.mp hnew
      exact hmem d hd
  have hadm : ∀ r ∈ rankings, r.Admissible := by
    intro r hr
    refine ⟨creditAll_fits hfold (fun r hr => (h.rankings_admissible r hr).points) r hr, ?_⟩
    rcases creditAll_attendance hfold hr with hnone | ⟨r', hr', heq⟩
    · exact hnone ▸ counterLimit_pos
    · exact heq ▸ (h.rankings_admissible r' hr').attendance
  exact { h with
    ranking_ids := creditAll_nodup hfold h.ranking_ids
    rankings_admissible := hadm
    ranking_membership := fun r hr => hkeys _ (List.mem_map_of_mem hr) }

/-- Every statement keeps the tables consistent. -/
theorem Written.consistent {c c' : Club} (hw : Written c c') (h : c.Consistent) :
    c'.Consistent := by
  cases hw with
  | insertSemester hst => exact h.insertSemester hst
  | adjustBudget hst => exact h.adjustBudget hst
  | insertMembership hst => exact h.insertMembership hst
  | insertEvent hst => exact h.insertEvent hst
  | updateEvent hst => exact h.updateEvent hst
  | setState hst => exact h.setState hst
  | incrementRebuys hst => exact h.incrementRebuys hst
  | insertParticipant hst => exact h.insertParticipant hst
  | setSignedOutAt hst =>
      exact h.changeParticipants hst (fun _ => rfl) (fun _ => rfl) (fun _ => rfl)
        fun p hp _ => h.placements_small p hp
  | forceSignOut hst =>
      exact h.changeParticipants hst (fun _ => rfl) (fun _ => rfl) (fun _ => rfl)
        fun p hp _ => h.placements_small p hp
  | setPlacements hsmall hst => exact h.setPlacements hsmall hst
  | creditRankings hst => exact h.creditRankings hst

theorem Composed.consistent {ε α : Type} {w : Work ε α} (h : Composed w) {c c' : Club} {a : α}
    (hyields : w.Yields c a c') (hc : c.Consistent) : c'.Consistent :=
  h.keeps Written.consistent hyields hc

end CardClub
