import CardClub.Proofs.Atomicity

/-!
# What service calls do

`ServiceCall.Effect` says for each call of a service what it has tested when it succeeds and which
statements it has run. Ending an event and undoing the end are treated on their own.
-/

namespace CardClub

open Work

variable {c c' : Club} {α : Type}

theorem SemesterRow.read_ok {row : SemesterRow} {s : Semester} (h : row.read = .ok s) :
    s.id = row.id ∧ s.toSemesterTerms = row.toSemesterTerms := by
  unfold SemesterRow.read at h
  split at h
  · obtain rfl := Except.ok.inj h
    exact ⟨rfl, rfl⟩
  · cases h

namespace Store

@[simp] theorem regular_found {entity : Entity} {id : Uuid} {row : Option α} :
    Regular (found entity id row) :=
  regular_require

@[simp] theorem found_yields {entity : Entity} {id : Uuid} {row : Option α} {a : α} :
    (found entity id row).Yields c a c' ↔ row = some a ∧ c = c' :=
  require_yields

theorem getSemester_yields {semester : SemesterId} {answer : Option Semester} :
    (getSemester semester).Yields c answer c' ↔
      ((c.semester? semester = none ∧ answer = none) ∨
        ∃ row s, c.semester? semester = some row ∧ row.read = .ok s ∧ answer = some s) ∧
        c = c' := by
  rw [getSemester, bind_yields regular_read]
  simp only [read_yields]
  constructor
  · rintro ⟨_, _, ⟨rfl, rfl⟩, h⟩
    cases hrow : c.semester? semester with
    | none =>
        rw [hrow] at h
        obtain ⟨rfl, rfl⟩ := pure_yields.mp h
        exact ⟨.inl ⟨rfl, rfl⟩, rfl⟩
    | some row =>
        rw [hrow] at h
        obtain ⟨hread, rfl⟩ := ofExcept_yields.mp h
        cases hs : row.read with
        | error e => simp [hs, Except.map] at hread
        | ok s =>
            rw [hs] at hread
            exact ⟨.inr ⟨row, s, rfl, hs, (Except.ok.inj hread).symm⟩, rfl⟩
  · rintro ⟨⟨hrow, rfl⟩ | ⟨row, s, hrow, hs, rfl⟩, rfl⟩
    · exact ⟨_, _, ⟨rfl, rfl⟩, by simp [hrow]⟩
    · exact ⟨_, _, ⟨rfl, rfl⟩, by simp [hrow, hs, Except.map]⟩

@[simp] theorem adjustBudget_yields {semester : SemesterId} {amount d : Decimal} :
    (adjustBudget semester amount).Yields c d c' ↔
      ∃ budget, Statement.adjustBudget semester amount c = .ok (some budget, c') ∧
        budget.toDecimal? = some d := by
  simp [adjustBudget, bind_yields, and_comm]

@[simp] theorem regular_adjustBudget {semester : SemesterId} {amount : Decimal} :
    Regular (adjustBudget semester amount) :=
  (composed_adjustBudget semester amount).regular

@[simp] theorem incrementRebuys_yields {event : EventId} {n : Nat} :
    (incrementRebuys event).Yields c n c' ↔
    Statement.incrementRebuys event c = .ok (some n, c') := by
  simp [incrementRebuys, bind_yields]

@[simp] theorem regular_incrementRebuys {event : EventId} : Regular (incrementRebuys event) :=
  (composed_incrementRebuys event).regular

@[simp] theorem setSignedOutAt_yields {id : ParticipantId} {time : Option Instant} {u : Unit} :
    (setSignedOutAt id time).Yields c u c' ↔
      ∃ n, Statement.setSignedOutAt id time c = .ok (n, c') ∧ n ≠ 0 := by
  simp [setSignedOutAt, bind_yields]

@[simp] theorem regular_setSignedOutAt {id : ParticipantId} {time : Option Instant} :
    Regular (setSignedOutAt id time) :=
  (composed_setSignedOutAt id time).regular

@[simp] theorem batchUpdateRankings_yields {deltas : List (MembershipId × Int)} {n : Nat} :
    (batchUpdateRankings deltas).Yields c n c' ↔
    Statement.creditRankings deltas c = .ok (n, c') := by
  unfold batchUpdateRankings
  cases deltas with
  | nil => simp [Statement.creditRankings, pure, Except.pure]
  | cons d deltas => simp

end Store

namespace Service

@[simp] theorem store_yields {w : Work StoreError α} {a : α} :
    (store w).Yields c a c' ↔ w.Yields c a c' :=
  mapError_yields

@[simp] theorem regular_store {w : Work StoreError α} (hw : Regular w) : Regular (store w) :=
  hw.mapError _

@[simp] theorem storeExcept_yields {test : StoreError → Bool} {e : ServiceError}
    {w : Work StoreError α} {a : α} : (storeExcept test e w).Yields c a c' ↔ w.Yields c a c' :=
  mapError_yields

@[simp] theorem regular_storeExcept {test : StoreError → Bool} {e : ServiceError}
    {w : Work StoreError α} (hw : Regular w) : Regular (storeExcept test e w) :=
  hw.mapError _

@[simp] theorem found_yields {entity : Entity} {id : Uuid} {row : Option α} {a : α} :
    (found entity id row).Yields c a c' ↔ row = some a ∧ c = c' :=
  require_yields

@[simp] theorem regular_found {entity : Entity} {id : Uuid} {row : Option α} :
    Regular (found entity id row) :=
  regular_require

@[simp] theorem refuse_yields {fault : Option RequestError} {u : Unit} :
    (refuse fault).Yields c u c' ↔ fault = none ∧ c = c' := by
  cases fault <;> simp [refuse]

@[simp] theorem regular_refuse {fault : Option RequestError} : Regular (refuse fault) :=
  (composed_refuse fault).regular

@[simp] theorem getEvent_yields {event : EventId} {e : Event} :
    (getEvent event).Yields c e c' ↔ c.event? event = some e ∧ c = c' := by
  simp [getEvent, bind_yields, Store.getEvent]

@[simp] theorem regular_getEvent {event : EventId} : Regular (getEvent event) :=
  (composed_getEvent event).regular

@[simp] theorem getMembership_yields {membership : MembershipId} {m : Membership} :
    (getMembership membership).Yields c m c' ↔ c.membership? membership = some m ∧ c = c' := by
  simp [getMembership, bind_yields, Store.getMembership]

@[simp] theorem regular_getMembership {membership : MembershipId} :
    Regular (getMembership membership) :=
  (composed_getMembership membership).regular

@[simp] theorem regular_getSemester {semester : SemesterId} : Regular (getSemester semester) :=
  (composed_getSemester semester).regular

@[simp] theorem getSemester_yields {semester : SemesterId} {s : Semester} :
    (getSemester semester).Yields c s c' ↔
      ∃ row, c.semester? semester = some row ∧ row.read = .ok s ∧ c = c' := by
  rw [getSemester, bind_yields (regular_store (Store.composed_getSemester semester).regular)]
  simp only [store_yields, Store.getSemester_yields, found_yields]
  aesop

variable {stamp : Stamp} {event : EventId}

theorem createSemester_yields {terms : SemesterTerms} {s : Semester} :
    (createSemester stamp terms).Yields c s c' ↔ terms.fault? = none ∧
      ∃ row, Statement.insertSemester ⟨stamp.uuid⟩ stamp.now terms c = .ok (row, c') ∧
      row.read = .ok s := by
  simp [createSemester, bind_yields, Store.insertSemester]

theorem createMembership_yields {semester : SemesterId} {user : UserId} {paid discounted : Bool}
    {m : Membership} :
    (createMembership stamp semester user paid discounted).Yields c m c' ↔
      ∃ terms, (∃ row, c.semester? semester = some row ∧ row.read = .ok terms) ∧
        ∃ c₁, Statement.insertMembership
            ⟨⟨stamp.uuid⟩, semester, user, paid, discounted, stamp.now⟩ c =
          .ok (m, c₁) ∧
        if m.paid then ∃ budget, Statement.adjustBudget semester (terms.feeFor m.discounted) c₁ =
            .ok (some budget, c') ∧ ∃ d, budget.toDecimal? = some d
          else c₁ = c' := by
  have hfee {m' : Membership} {fee : Decimal} {c₁ : Club} :
      (if m'.paid then store (Store.adjustBudget semester fee) >>= fun _ => pure m'
        else pure m').Yields c₁ m c' ↔
      m' = m ∧ if m.paid then ∃ budget, Statement.adjustBudget semester fee c₁ =
        .ok (some budget, c') ∧ ∃ d, budget.toDecimal? = some d else c₁ = c' := by
    by_cases hpaid : m'.paid = true
    · simp only [hpaid, if_true, bind_yields, regular_store, Store.regular_adjustBudget,
        store_yields, Store.adjustBudget_yields, pure_yields]
      aesop
    · aesop
  simp only [createMembership, transaction_yields, bind_yields, regular_getSemester,
    getSemester_yields, Store.insertMembership, regular_storeExcept, regular_write,
    storeExcept_yields, write_yields, hfee]
  aesop

theorem createEvent_yields {plan : EventPlan} {e : Event} :
    (createEvent stamp plan).Yields c e c' ↔ plan.fault? = none ∧
      (∃ row s, c.semester? plan.semesterId = some row ∧ row.read = .ok s) ∧
      Statement.insertEvent ⟨stamp.uuid⟩ stamp.now plan c = .ok (e, c') := by
  simp [createEvent, bind_yields, Store.insertEvent]
  aesop

theorem updateEvent_yields {update : EventUpdate} {row : Event} :
    (updateEvent event update).Yields c row c' ↔ update.fault? = none ∧
      ∃ e, c.event? event = some e ∧
        (e.state.isEnded && update.changesMultiplier e.multiplier) = false ∧
        Statement.updateEvent event update c = .ok (some row, c') := by
  simp [updateEvent, bind_yields, Store.updateEvent]

theorem enterEvent_yields {membership : MembershipId} {p : Participant} :
    (enterEvent stamp event membership).Yields c p c' ↔
      ∃ e, c.event? event = some e ∧ e.state.isEnded = false ∧
        ∃ m, c.membership? membership = some m ∧ m.semesterId = e.semesterId ∧
          Statement.insertParticipant ⟨stamp.uuid⟩ stamp.now event membership c = .ok (p, c') := by
  simp [enterEvent, bind_yields, Store.insertParticipant]

theorem setSignedOutAt_yields {id : ParticipantId} {time : Option Instant} {answer : Participant} :
    (setSignedOutAt id time).Yields c answer c' ↔
      ∃ p, c.participant? id = some p ∧ ∃ e, c.event? p.eventId = some e ∧ e.state.isEnded = false ∧
        (∃ n, Statement.setSignedOutAt id time c = .ok (n, c') ∧ n ≠ 0) ∧
        { p with signedOutAt := time } = answer := by
  simp [setSignedOutAt, bind_yields, Store.getParticipant]

theorem newRebuy_yields {answer : RebuyOutcome} :
    (newRebuy event).Yields c answer c' ↔
      ∃ e, c.event? event = some e ∧ e.state.isEnded = false ∧
        ∃ rebuys c₁, Statement.incrementRebuys event c = .ok (some rebuys, c₁) ∧
          ∃ s, (∃ row, c₁.semester? e.semesterId = some row ∧ row.read = .ok s) ∧
            ∃ d, (∃ budget, Statement.adjustBudget s.id s.rebuyFee c₁ = .ok (some budget, c') ∧
              budget.toDecimal? = some d) ∧ ⟨event, rebuys, d⟩ = answer := by
  simp [newRebuy, bind_yields]

end Service

/-- Whether a call only reads. -/
def ServiceCall.isRead : ServiceCall → Bool
  | getSemester _ | getMembership _ | getEvent _ | listEvents _ | listParticipants _
  | getRanking _ _ | listRankings _ => true
  | _ => false

/-- What a call of a service that succeeds does to the tables. -/
inductive ServiceCall.Effect (stamp : Stamp) (c : Club) : ServiceCall → Club → Prop where
  | looked {call} (h : call.isRead = true) : Effect stamp c call c
  | semesterOpened {terms row}
      (h : Statement.insertSemester ⟨stamp.uuid⟩ stamp.now terms c =
        .ok (row, { c with semesters := c.semesters ++ [row] })) :
      Effect stamp c (.createSemester terms) { c with semesters := c.semesters ++ [row] }
  | joined {semester user paid discounted row m semesters} (hrow : c.semester? semester = some row)
      (h : Statement.insertMembership
          ⟨⟨stamp.uuid⟩, semester, user, paid, discounted, stamp.now⟩ c =
        .ok (m, { c with memberships := c.memberships ++ [m] }))
      (hfee : if paid then
          ((row.budget + .ofDecimal (row.feeFor discounted)).toDecimal?).isSome = true ∧
          semesters = replaceWhere (fun s => decide (s.id = semester))
            (fun s => { s with budget := row.budget + .ofDecimal (row.feeFor discounted) })
              c.semesters
        else semesters = c.semesters) :
      Effect stamp c (.createMembership semester user paid discounted)
        { c with memberships := c.memberships ++ [m], semesters }
  | announced {plan row} (hfault : plan.fault? = none)
      (h : Statement.insertEvent ⟨stamp.uuid⟩ stamp.now plan c =
        .ok (row, { c with events := c.events ++ [row] })) :
      Effect stamp c (.createEvent plan) { c with events := c.events ++ [row] }
  | amended {event update e} (hfault : update.fault? = none) (he : c.event? event = some e)
      (hfrozen : (e.state.isEnded && update.changesMultiplier e.multiplier) = false)
      (hmultiplier : (update.apply e.toEventPlan).multiplier.isNegative = false) :
      Effect stamp c (.updateEvent event update)
        (Statement.putEvent c { e with toEventPlan := update.apply e.toEventPlan })
  | entered {event membership e m p} (he : c.event? event = some e)
      (hopen : e.state.isEnded = false)
      (hm : c.membership? membership = some m) (hsemester : m.semesterId = e.semesterId)
      (h : Statement.insertParticipant ⟨stamp.uuid⟩ stamp.now event membership c =
        .ok (p, { c with participants := c.participants ++ [p] })) :
      Effect stamp c (.enterEvent event membership) { c with participants := c.participants ++ [p] }
  | signedOut {id p e} (hp : c.participant? id = some p) (he : c.event? p.eventId = some e)
      (hopen : e.state.isEnded = false) :
      Effect stamp c (.signOut id) { c with
        participants := replaceWhere (fun p => decide (p.id = id))
          (fun p => { p with signedOutAt := some stamp.now.stored }) c.participants }
  | signedIn {id p e} (hp : c.participant? id = some p) (he : c.event? p.eventId = some e)
      (hopen : e.state.isEnded = false) :
      Effect stamp c (.signIn id) { c with
        participants := replaceWhere (fun p => decide (p.id = id))
          (fun p => { p with signedOutAt := none }) c.participants }
  | ended {event answer c'} (h : (Service.endEvent event).Yields c answer c') :
      Effect stamp c (.endEvent event) c'
  | endUndone {event answer c'} (h : (Service.undoEndEvent event).Yields c answer c') :
      Effect stamp c (.undoEndEvent event) c'
  | rebought {event e row} (he : c.event? event = some e) (hopen : e.state.isEnded = false)
      (hcount : e.rebuys + 1 < counterLimit) (hrow : c.semester? e.semesterId = some row)
      (hbudget : ((row.budget + .ofDecimal row.rebuyFee).toDecimal?).isSome = true) :
      Effect stamp c (.newRebuy event) { Statement.putEvent c { e with rebuys := e.rebuys + 1 } with
        semesters := replaceWhere (fun s => decide (s.id = e.semesterId))
          (fun s => { s with budget := row.budget + .ofDecimal row.rebuyFee }) c.semesters }
  | adjusted {membership delta rankings} (hm : membership ∈ c.memberships.map (·.id))
      (h : [(membership, delta)].foldlM Statement.creditRanking c.rankings = .ok rankings) :
      Effect stamp c (.updateRanking membership delta) { c with rankings }
  | adjustedAll {deltas rankings} (hm : ∀ d ∈ deltas, d.1 ∈ c.memberships.map (·.id))
      (h : deltas.foldlM Statement.creditRanking c.rankings = .ok rankings) :
      Effect stamp c (.batchUpdateRankings deltas) { c with rankings }

theorem ServiceCall.isRead_quiet (stamp : Stamp) {call : ServiceCall} (h : call.isRead = true) :
    Quiet (call.run stamp) := by
  cases call with
  | getSemester s => exact (Service.quiet_getSemester s).bind fun _ => quiet_pure
  | getMembership m => exact (Service.quiet_getMembership m).bind fun _ => quiet_pure
  | getEvent e => exact (Service.quiet_getEvent e).bind fun _ => quiet_pure
  | listEvents s => exact (Service.quiet_listEvents s).bind fun _ => quiet_pure
  | listParticipants e => exact (Service.quiet_listParticipants e).bind fun _ => quiet_pure
  | getRanking s m => exact (Service.quiet_getRanking s m).bind fun _ => quiet_pure
  | listRankings s => exact (Service.quiet_listRankings s).bind fun _ => quiet_pure
  | _ => cases h

theorem ServiceCall.effect {stamp : Stamp} {call : ServiceCall} {reply : Reply}
    (h : (call.run stamp).Yields c reply c') : call.Effect stamp c c' := by
  by_cases hread : call.isRead = true
  · have hclub : c' = c := by
      have hquiet := call.isRead_quiet stamp hread ⟨c, none⟩
      rwa [h] at hquiet
    rw [hclub]
    exact .looked hread
  cases call with
  | getSemester | getMembership | getEvent | listEvents | listParticipants | getRanking
  | listRankings => exact absurd rfl hread
  | createSemester terms =>
      obtain ⟨s, hs, -⟩ := map_yields.mp h
      obtain ⟨-, row, hst, -⟩ := Service.createSemester_yields.mp hs
      obtain ⟨-, -, -, -, -, -, -, -, rfl⟩ := Statement.insertSemester_ok hst
      exact .semesterOpened hst
  | createMembership semester user paid discounted =>
      obtain ⟨m, hm, -⟩ := map_yields.mp h
      obtain ⟨terms, ⟨row, hrow, hread⟩, c₁, hst, hfee⟩ := Service.createMembership_yields.mp hm
      obtain ⟨-, -, -, hm, rfl⟩ := Statement.insertMembership_ok hst
      obtain ⟨-, hterms⟩ := row.read_ok hread
      have hpaid : m.paid = paid := hm ▸ rfl
      have hdiscounted : m.discounted = discounted := hm ▸ rfl
      rw [hpaid, hdiscounted, hterms] at hfee
      cases paid with
      | false =>
          obtain rfl := hfee
          exact .joined hrow hst rfl
      | true =>
          obtain ⟨budget, hbudget, d, hd⟩ := hfee
          obtain ⟨row', hrow', rfl, rfl⟩ := Statement.adjustBudget_some hbudget
          obtain rfl : row = row' := Option.some.inj (hrow.symm.trans hrow')
          exact .joined hrow hst ⟨Option.isSome_iff_exists.mpr ⟨d, hd⟩, rfl⟩
  | createEvent plan =>
      obtain ⟨e, he, -⟩ := map_yields.mp h
      obtain ⟨hfault, -, hst⟩ := Service.createEvent_yields.mp he
      obtain ⟨-, -, -, -, rfl⟩ := Statement.insertEvent_ok hst
      exact .announced hfault hst
  | updateEvent event update =>
      obtain ⟨row, hrow, -⟩ := map_yields.mp h
      obtain ⟨hfault, e, he, hfrozen, hst⟩ := Service.updateEvent_yields.mp hrow
      rcases Statement.updateEvent_ok hst with ⟨hnone, -, -⟩ |
        ⟨e', _, he', rfl, hmultiplier, -, rfl⟩
      · rw [he] at hnone
        cases hnone
      · obtain rfl : e = e' := Option.some.inj (he.symm.trans he')
        exact .amended hfault he hfrozen hmultiplier
  | enterEvent event membership =>
      obtain ⟨p, hp, -⟩ := map_yields.mp h
      obtain ⟨e, he, hopen, m, hm, hsemester, hst⟩ := Service.enterEvent_yields.mp hp
      obtain ⟨-, -, -, -, -, rfl⟩ := Statement.insertParticipant_ok hst
      exact .entered he hopen hm hsemester hst
  | signOut id =>
      obtain ⟨answer, hanswer, -⟩ := map_yields.mp h
      obtain ⟨p, hp, e, he, hopen, ⟨n, hst, -⟩, -⟩ := Service.setSignedOutAt_yields.mp hanswer
      obtain ⟨-, rfl⟩ := Statement.changeParticipants_ok hst
      exact .signedOut hp he hopen
  | signIn id =>
      obtain ⟨answer, hanswer, -⟩ := map_yields.mp h
      obtain ⟨p, hp, e, he, hopen, ⟨n, hst, -⟩, -⟩ := Service.setSignedOutAt_yields.mp hanswer
      obtain ⟨-, rfl⟩ := Statement.changeParticipants_ok hst
      exact .signedIn hp he hopen
  | endEvent event =>
      obtain ⟨answer, hanswer, -⟩ := map_yields.mp h
      exact .ended hanswer
  | undoEndEvent event =>
      obtain ⟨answer, hanswer, -⟩ := map_yields.mp h
      exact .endUndone hanswer
  | newRebuy event =>
      obtain ⟨answer, hanswer, -⟩ := map_yields.mp h
      obtain ⟨e, he, hopen, rebuys, c₁, hst, s, ⟨row, hrow, hread⟩, d, ⟨budget, hfee, hd⟩, -⟩ :=
        Service.newRebuy_yields.mp hanswer
      obtain ⟨-, hid⟩ := mem_of_find?_key hrow
      obtain ⟨hid', hterms⟩ := row.read_ok hread
      rw [hid', hid, hterms] at hfee
      obtain ⟨row', hrow', rfl, rfl⟩ := Statement.adjustBudget_some hfee
      obtain rfl : row = row' := Option.some.inj (hrow.symm.trans hrow')
      rcases Statement.incrementRebuys_ok hst with ⟨hnone, -, -⟩ | ⟨e', he', hcount, -, rfl⟩
      · rw [he] at hnone
        cases hnone
      · obtain rfl : e = e' := Option.some.inj (he.symm.trans he')
        exact .rebought he hopen hcount hrow (Option.isSome_iff_exists.mpr ⟨d, hd⟩)
  | updateRanking membership delta =>
      obtain ⟨n, hn, -⟩ := map_yields.mp h
      obtain ⟨n, _, hst, hview⟩ := (bind_yields regular_write).mp (Service.storeExcept_yields.mp hn)
      obtain ⟨-, rfl⟩ := read_yields.mp hview
      obtain ⟨hm, -, rankings, hfold, rfl⟩ := Statement.creditRankings_ok.mp (write_yields.mp hst)
      exact .adjusted (hm _ (List.mem_singleton_self _)) hfold
  | batchUpdateRankings deltas =>
      obtain ⟨n, hn, -⟩ := map_yields.mp h
      have hst := Store.batchUpdateRankings_yields.mp (Service.storeExcept_yields.mp hn)
      obtain ⟨hm, -, rankings, hfold, rfl⟩ := Statement.creditRankings_ok.mp hst
      exact .adjustedAll hm hfold

end CardClub
