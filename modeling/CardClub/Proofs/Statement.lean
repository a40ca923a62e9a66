import CardClub.Proofs.Table

/-!
# What a statement writes

One lemma for each statement says what it has tested when it succeeds and which tables it leaves.
Later proofs use these lemmas and do not open the statements again.
-/

namespace CardClub.Statement

variable {c c' : Club} {now : Instant}

theorem insertSemester_ok {id : SemesterId} {terms : SemesterTerms} {row : SemesterRow}
    (h : insertSemester id now terms c = .ok (row, c')) :
    id ∉ c.semesters.map (·.id) ∧ row.id = id ∧ row.toSemesterTerms = terms.stored ∧
      row.budget = .ofDecimal terms.initialBudget ∧
      row.membershipFee.isNegative = false ∧ row.discountedFee.isNegative = false ∧
      row.rebuyFee.isNegative = false ∧ row.startDate ≤ row.endDate ∧
      c' = { c with semesters := c.semesters ++ [row] } := by
  simp only [insertSemester] at h
  split at h
  · simp at h
  · next hterms =>
    split at h
    · simp at h
    · next hid =>
      obtain ⟨rfl, rfl⟩ := Prod.mk.inj (Except.ok.inj h)
      simp only [Bool.or_eq_true, decide_eq_true_eq, not_or, Bool.not_eq_true] at hterms
      obtain ⟨⟨⟨hm, hd⟩, hr⟩, hdates⟩ := hterms
      refine ⟨fun hmem => hid (isSome_find?_key.mpr hmem), rfl, rfl, rfl, hm, hd, hr, ?_, rfl⟩
      by_contra hle
      exact hdates (Instant.lt_iff_not_le.mpr hle)

theorem adjustBudget_ok {id : SemesterId} {amount : Decimal} {answer : Option Amount}
    (h : adjustBudget id amount c = .ok (answer, c')) :
    ∃ budget, c' = { c with
      semesters :=
        replaceWhere (fun s => decide (s.id = id)) (fun s => { s with budget }) c.semesters } := by
  simp only [adjustBudget] at h
  split at h
  · next hnone =>
    obtain ⟨-, rfl⟩ := Prod.mk.inj (Except.ok.inj h)
    refine ⟨default, ?_⟩
    rw [replaceWhere_eq_self]
    intro s hs hid
    exact absurd (List.mem_map.mpr ⟨s, hs, of_decide_eq_true hid⟩) (find?_key_eq_none.mp hnone)
  · obtain ⟨-, rfl⟩ := Prod.mk.inj (Except.ok.inj h)
    exact ⟨_, rfl⟩

theorem adjustBudget_some {id : SemesterId} {amount : Decimal} {budget : Amount}
    (h : adjustBudget id amount c = .ok (some budget, c')) :
    ∃ row, c.semester? id = some row ∧ budget = row.budget + .ofDecimal amount ∧ c' = { c with
      semesters :=
        replaceWhere (fun s => decide (s.id = id)) (fun s => { s with budget }) c.semesters } := by
  simp only [adjustBudget] at h
  split at h
  · simp at h
  · next row hrow =>
    obtain ⟨hbudget, rfl⟩ := Prod.mk.inj (Except.ok.inj h)
    obtain rfl := Option.some.inj hbudget
    exact ⟨row, hrow, rfl, rfl⟩

theorem insertMembership_ok {m row : Membership} (h : insertMembership m c = .ok (row, c')) :
    m.id ∉ c.memberships.map (·.id) ∧
      (m.semesterId, m.userId) ∉ c.memberships.map (fun x => (x.semesterId, x.userId)) ∧
      m.semesterId ∈ c.semesters.map (·.id) ∧ row = { m with createdAt := m.createdAt.stored } ∧
      c' = { c with memberships := c.memberships ++ [row] } := by
  simp only [insertMembership] at h
  split at h
  · simp at h
  · next hkeys =>
    split at h
    · simp at h
    · next hsemester =>
      obtain ⟨rfl, rfl⟩ := Prod.mk.inj (Except.ok.inj h)
      simp only [Bool.or_eq_true, not_or] at hkeys
      refine ⟨fun hmem => hkeys.1 (isSome_find?_key.mpr hmem), fun hmem => hkeys.2 ?_, ?_, rfl, rfl⟩
      · obtain ⟨x, hx, heq⟩ := List.mem_map.mp hmem
        obtain ⟨hs, hu⟩ := Prod.mk.inj heq
        exact List.any_eq_true.mpr ⟨x, hx, by simp [hs, hu]⟩
      · by_contra hmem
        exact hsemester (Option.isNone_iff_eq_none.mpr (find?_key_eq_none.mpr hmem))

theorem insertEvent_ok {id : EventId} {plan : EventPlan} {row : Event}
    (h : insertEvent id now plan c = .ok (row, c')) :
    id ∉ c.events.map (·.id) ∧ plan.semesterId ∈ c.semesters.map (·.id) ∧
      row.multiplier.isNegative = false ∧
      row = { plan.stored with id, state := .started, rebuys := 0, createdAt := now.stored } ∧
      c' = { c with events := c.events ++ [row] } := by
  simp only [insertEvent] at h
  split at h
  · simp at h
  · next hneg =>
    split at h
    · simp at h
    · next hid =>
      split at h
      · simp at h
      · next hsemester =>
        obtain ⟨rfl, rfl⟩ := Prod.mk.inj (Except.ok.inj h)
        refine ⟨fun hmem => hid (isSome_find?_key.mpr hmem), ?_, by simpa using hneg, rfl, rfl⟩
        by_contra hmem
        exact hsemester (Option.isNone_iff_eq_none.mpr (find?_key_eq_none.mpr hmem))

theorem updateEvent_ok {id : EventId} {update : EventUpdate} {answer : Option Event}
    (h : updateEvent id update c = .ok (answer, c')) :
    (c.event? id = none ∧ answer = none ∧ c' = c) ∨
      ∃ e row, c.event? id = some e ∧ row = { e with toEventPlan := update.apply e.toEventPlan } ∧
        row.multiplier.isNegative = false ∧ answer = some row ∧ c' = putEvent c row := by
  simp only [updateEvent] at h
  split at h
  · next hnone =>
    obtain ⟨rfl, rfl⟩ := Prod.mk.inj (Except.ok.inj h)
    exact .inl ⟨hnone, rfl, rfl⟩
  · next e he =>
    split at h
    · simp at h
    · next hneg =>
      obtain ⟨rfl, rfl⟩ := Prod.mk.inj (Except.ok.inj h)
      exact .inr ⟨e, _, he, rfl, by simpa using hneg, rfl, rfl⟩

theorem setState_ok {id : EventId} {state : EventState} {n : Nat}
    (h : setState id state c = .ok (n, c')) :
    (c.event? id = none ∧ n = 0 ∧ c' = c) ∨
      ∃ e, c.event? id = some e ∧ n = 1 ∧ c' = putEvent c { e with state } := by
  simp only [setState] at h
  split at h
  · next hnone =>
    obtain ⟨rfl, rfl⟩ := Prod.mk.inj (Except.ok.inj h)
    exact .inl ⟨hnone, rfl, rfl⟩
  · next e he =>
    obtain ⟨rfl, rfl⟩ := Prod.mk.inj (Except.ok.inj h)
    exact .inr ⟨e, he, rfl, rfl⟩

theorem incrementRebuys_ok {id : EventId} {answer : Option Nat}
    (h : incrementRebuys id c = .ok (answer, c')) :
    (c.event? id = none ∧ answer = none ∧ c' = c) ∨
      ∃ e, c.event? id = some e ∧ e.rebuys + 1 < counterLimit ∧ answer = some (e.rebuys + 1) ∧
        c' = putEvent c { e with rebuys := e.rebuys + 1 } := by
  simp only [incrementRebuys] at h
  split at h
  · next hnone =>
    obtain ⟨rfl, rfl⟩ := Prod.mk.inj (Except.ok.inj h)
    exact .inl ⟨hnone, rfl, rfl⟩
  · next e he =>
    split at h
    · next hfits =>
      obtain ⟨rfl, rfl⟩ := Prod.mk.inj (Except.ok.inj h)
      have hlt := (fitsCounter_iff.mp hfits).2
      exact .inr ⟨e, he, by omega, rfl, rfl⟩
    · simp at h

theorem insertParticipant_ok {id : ParticipantId} {event : EventId} {membership : MembershipId}
    {row : Participant} (h : insertParticipant id now event membership c = .ok (row, c')) :
    id ∉ c.participants.map (·.id) ∧
      (membership, event) ∉ c.participants.map (fun p => (p.membershipId, p.eventId)) ∧
      membership ∈ c.memberships.map (·.id) ∧ event ∈ c.events.map (·.id) ∧
      row = ⟨id, membership, event, 0, none, now.stored⟩ ∧
      c' = { c with participants := c.participants ++ [row] } := by
  simp only [insertParticipant] at h
  split at h
  · simp at h
  · next hkeys =>
    split at h
    · simp at h
    · next hrefs =>
      obtain ⟨rfl, rfl⟩ := Prod.mk.inj (Except.ok.inj h)
      simp only [Bool.or_eq_true, not_or, Option.isNone_iff_eq_none] at hkeys hrefs
      refine ⟨fun hmem => hkeys.1 (isSome_find?_key.mpr hmem), fun hmem =>
        hkeys.2 ?_, ?_, ?_, rfl, rfl⟩
      · obtain ⟨x, hx, heq⟩ := List.mem_map.mp hmem
        obtain ⟨hm, he⟩ := Prod.mk.inj heq
        exact List.any_eq_true.mpr ⟨x, hx, by simp [hm, he]⟩
      · by_contra hmem
        exact hrefs.1 (find?_key_eq_none.mpr hmem)
      · by_contra hmem
        exact hrefs.2 (find?_key_eq_none.mpr hmem)

theorem changeParticipants_ok {test : Participant → Bool} {change : Participant → Participant}
    {n : Nat} (h : changeParticipants test change c = .ok (n, c')) :
    n = (c.participants.filter test).length ∧
      c' = { c with participants := replaceWhere test change c.participants } := by
  obtain ⟨rfl, rfl⟩ := Prod.mk.inj (Except.ok.inj h)
  exact ⟨rfl, rfl⟩

theorem creditRankings_ok {deltas : List (MembershipId × Int)} {n : Nat} :
    creditRankings deltas c = .ok (n, c') ↔
      (∀ d ∈ deltas, d.1 ∈ c.memberships.map (·.id)) ∧ n = deltas.length ∧
        ∃ rankings, deltas.foldlM creditRanking c.rankings = .ok rankings ∧
        c' = { c with rankings } := by
  have hall : deltas.all (fun d => (c.membership? d.1).isSome) = true ↔
      ∀ d ∈ deltas, d.1 ∈ c.memberships.map (·.id) := by
    rw [List.all_eq_true]
    exact forall₂_congr fun d _ => isSome_find?_key
  rw [← hall]
  simp only [creditRankings]
  cases deltas.foldlM creditRanking c.rankings with
  | error e => simp
  | ok rankings =>
      dsimp only
      split
      · next hmem => simp [hmem, eq_comm]
      · next hmem => simp [hmem]

/-! ## Rows that are found -/

theorem event?_eq_some {id : EventId} {e : Event} (h : c.event? id = some e) :
    e ∈ c.events ∧ e.id = id :=
  mem_of_find?_key h

end CardClub.Statement
