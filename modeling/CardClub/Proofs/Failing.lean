import CardClub.Proofs.Effect

/-!
# Failing work

Without an armed failure, work either succeeds or fails. As the laws of `Work.Yields` say what work
that succeeds has done, those of `Work.Fails` say with which errors the combinators fail. Nothing
that only reads fails, and a write fails as its statement does. An armed failure adds its own error
wherever it may trip; `Work.ErrsOnly` says which errors there are whatever is armed.
-/

namespace CardClub

namespace Work

variable {ε δ α β : Type}

/-- Without an armed failure, the work fails with an error. -/
def Fails (w : Work ε α) (c : Club) (e : ε) : Prop := (w.run ⟨c, none⟩).1 = .error e

/-- On these tables, the work fails with no other errors than these. -/
def FailsOnly (P : ε → Prop) (w : Work ε α) (c : Club) : Prop := ∀ e, w.Fails c e → P e

variable {w : Work ε α} {next : α → Work ε β} {c c' : Club} {a : α} {e e' : ε} {P : ε → Prop}

theorem Yields.not_fails (h : w.Yields c a c') : ¬ w.Fails c e := by
  rw [Fails, h]
  exact nofun

theorem Regular.answer_ok (hw : Regular w) :
    (w.run ⟨c, none⟩).1 = .ok a ↔ ∃ c', w.Yields c a c' := by
  constructor
  · intro h
    exact ⟨(w.run ⟨c, none⟩).2.club, hw.yields (Prod.ext h rfl)⟩
  · rintro ⟨c', h⟩
    rw [h]

theorem Regular.yields_or_fails (hw : Regular w) (c : Club) :
    (∃ a c', w.Yields c a c') ∨ ∃ e, w.Fails c e := by
  cases h : (w.run ⟨c, none⟩).1 with
  | ok a => exact .inl ⟨a, hw.answer_ok.mp h⟩
  | error e => exact .inr ⟨e, h⟩

/-! ## Errors of the combinators -/

@[simp] theorem give_fails : ¬ (give a : Work ε α).Fails c e := by
  simp [Fails]

@[simp] theorem pure_fails : ¬ (pure a : Work ε α).Fails c e := give_fails

@[simp] theorem fail_fails : (fail e : Work ε α).Fails c e' ↔ e = e' := by
  simp [Fails]

@[simp] theorem read_fails {view : Club → α} : ¬ (read view : Work ε α).Fails c e := by
  simp [Fails]

@[simp] theorem failIf_fails {condition : Bool} :
    (failIf condition e).Fails c e' ↔ condition = true ∧ e = e' := by
  cases condition <;> simp [failIf]

@[simp] theorem require_fails {value : Option α} :
    (require value e).Fails c e' ↔ value = none ∧ e = e' := by
  cases value <;> simp [require]

@[simp] theorem ofExcept_fails {f : δ → ε} {r : Except δ α} :
    (ofExcept f r).Fails c e ↔ ∃ d, r = .error d ∧ f d = e := by
  cases r <;> simp [ofExcept]

@[simp] theorem mapError_fails {f : δ → ε} {w : Work δ α} :
    (w.mapError f).Fails c e ↔ ∃ d, w.Fails c d ∧ f d = e := by
  simp only [Fails, mapError_run]
  cases (w.run ⟨c, none⟩).1 <;> simp [Except.mapError]

@[simp] theorem write_fails {table : Table} {statement : Statement α} {e : StoreError} :
    (write table statement).Fails c e ↔ ∃ x, statement c = .error x ∧ .database x = e := by
  simp only [Fails, run, write, Session.reach_unarmed]
  split <;> simp_all

theorem Fails.bind (h : w.Fails c e) (next : α → Work ε β) : (w >>= next).Fails c e := by
  rw [Fails, bind_run]
  rcases hw : w.run ⟨c, none⟩ with ⟨r, t⟩
  rw [Fails, hw] at h
  obtain rfl := h
  rfl

theorem Yields.bind_fails (h : w.Yields c a c') :
    (w >>= next).Fails c e ↔ (next a).Fails c' e := by
  rw [Fails, bind_run, h]
  rfl

/-- Work in sequence fails only as its first part does, or as the second part after the first. -/
theorem FailsOnly.bind (hw : Regular w) (h : w.FailsOnly P c)
    (hnext : ∀ a c', w.Yields c a c' → (next a).FailsOnly P c') : (w >>= next).FailsOnly P c := by
  intro e hfails
  rcases hw.yields_or_fails c with ⟨a, c', ha⟩ | ⟨e', he'⟩
  · exact hnext a c' ha e (ha.bind_fails.mp hfails)
  · have heq := (he'.bind next).symm.trans hfails
    obtain rfl := Except.error.inj heq
    exact h _ he'

theorem FailsOnly.of_yields (h : w.Yields c a c') (hnext : (next a).FailsOnly P c') :
    (w >>= next).FailsOnly P c :=
  fun e hfails => hnext e (h.bind_fails.mp hfails)

theorem failsOnly_pure : (pure a : Work ε α).FailsOnly P c := fun _ h => absurd h pure_fails

/-- Without an armed failure, work that changes nothing when it fails leaves the session as it
was. -/
theorem Fails.run_eq (h : w.Fails c e) (hw : Regular w) (hatomic : Atomic w) :
    w.run ⟨c, none⟩ = (.error e, ⟨c, none⟩) := by
  have hunarmed := hw.unarmed c
  rcases hrun : w.run ⟨c, none⟩ with ⟨r, ⟨after, armed⟩⟩
  rw [Fails, hrun] at h
  rw [hrun] at hunarmed
  obtain rfl := h
  obtain rfl : armed = none := hunarmed
  have hclub : after = c := hatomic _ _ _ hrun
  rw [hclub]

theorem Fails.transaction {body : Work ServiceError α} {e : ServiceError} (h : body.Fails c e) :
    (transaction body).Fails c e := by
  rw [Fails, run] at h ⊢
  rcases hrun : body ⟨c, none⟩ with ⟨r, t⟩
  rw [hrun] at h
  obtain rfl := h
  simp [Work.transaction, hrun]

/-- Where no failure is armed, opening and committing a transaction succeeds. -/
theorem FailsOnly.transaction {body : Work ServiceError α} {P : ServiceError → Prop}
    (hbody : Regular body) (h : body.FailsOnly P c) : (transaction body).FailsOnly P c := by
  intro e hfails
  rcases hbody.yields_or_fails c with ⟨a, c', ha⟩ | ⟨e', he'⟩
  · exact absurd hfails (transaction_yields.mpr ha).not_fails
  · have heq := he'.transaction.symm.trans hfails
    obtain rfl := Except.error.inj heq
    exact h _ he'

/-! ## Armed failures -/

/-- On these tables, whatever failure is armed, the work fails with no other errors than these. -/
def ErrsOnly (P : ε → Prop) (w : Work ε α) (c : Club) : Prop :=
  ∀ s, s.club = c → ∀ e, (w.run s).1 = .error e → P e

theorem errsOnly_pure : (pure a : Work ε α).ErrsOnly P c := fun _ _ _ h => by cases h

theorem errsOnly_fail (h : P e) : (fail e : Work ε α).ErrsOnly P c := by
  rintro s - e' he'
  exact Except.error.inj he' ▸ h

theorem errsOnly_failIf {condition : Bool} (h : P e) : (failIf condition e).ErrsOnly P c := by
  cases condition with
  | false => exact errsOnly_pure
  | true => exact errsOnly_fail h

theorem errsOnly_require {value : Option α} (h : P e) : (require value e).ErrsOnly P c := by
  cases value with
  | none => exact errsOnly_fail h
  | some a => exact errsOnly_pure

theorem errsOnly_ofExcept {f : δ → ε} {r : Except δ α} (h : ∀ d, r = .error d → P (f d)) :
    (ofExcept f r).ErrsOnly P c := by
  cases r with
  | error d => exact errsOnly_fail (h d rfl)
  | ok a => exact errsOnly_pure

theorem errsOnly_mapError {f : δ → ε} {w : Work δ α} (h : ∀ d, P (f d)) :
    (w.mapError f).ErrsOnly P c := by
  rintro s - e he
  rw [mapError_run] at he
  cases hw : (w.run s).1 with
  | ok a =>
      rw [hw] at he
      cases he
  | error d =>
      rw [hw] at he
      exact Except.error.inj he ▸ h d

theorem ErrsOnly.bind (hw : Regular w) (h : w.ErrsOnly P c)
    (hnext : ∀ a c', w.Yields c a c' → (next a).ErrsOnly P c') : (w >>= next).ErrsOnly P c := by
  rintro s rfl e he
  rw [bind_run] at he
  rcases hrun : w.run s with ⟨r, t⟩
  rw [hrun] at he
  cases r with
  | ok a => exact hnext a t.club (hw.yields hrun) t rfl e he
  | error e' => exact Except.error.inj he ▸ h s rfl e' (congrArg Prod.fst hrun)

/-- A transaction fails as its body does, or because the database does not open or commit it. -/
theorem ErrsOnly.transaction {body : Work ServiceError α} {P : ServiceError → Prop}
    (hdatabase : P (.ofDatabase .injected)) (h : body.ErrsOnly P c) :
    (transaction body).ErrsOnly P c := by
  rintro s rfl e he
  have hbegin := s.reach_club .begin
  simp only [run, Work.transaction] at he
  split at he
  · exact Except.error.inj he ▸ hdatabase
  · next t hreach =>
    rw [hreach] at hbegin
    split at he
    · split at he
      · cases he
      · exact Except.error.inj he ▸ hdatabase
    · next e' after hbody => exact Except.error.inj he ▸ h t hbegin e' (congrArg Prod.fst hbody)

end Work

open Work

variable {α : Type} {c : Club} {e : ServiceError} {event : EventId} {x : Event}

namespace Service

@[simp] theorem store_fails {w : Work StoreError α} :
    (store w).Fails c e ↔ ∃ x, w.Fails c x ∧ .ofStore x = e :=
  mapError_fails

@[simp] theorem found_fails {entity : Entity} {id : Uuid} {row : Option α} :
    (found entity id row).Fails c e ↔ row = none ∧ .notFound entity id = e :=
  require_fails

@[simp] theorem getEvent_fails :
    (getEvent event).Fails c e ↔ c.event? event = none ∧ .notFound .event event.uuid = e := by
  have hread : (store (Store.getEvent event)).Yields c (c.event? event) c := rfl
  rw [getEvent, hread.bind_fails, found_fails]

@[simp] theorem getMembership_fails {membership : MembershipId} :
    (getMembership membership).Fails c e ↔
      c.membership? membership = none ∧ .notFound .membership membership.uuid = e := by
  have hread : (store (Store.getMembership membership)).Yields c (c.membership? membership) c := rfl
  rw [getMembership, hread.bind_fails, found_fails]

@[simp] theorem storeExcept_fails {test : StoreError → Bool} {own : ServiceError}
    {w : Work StoreError α} :
    (storeExcept test own w).Fails c e ↔
      ∃ x, w.Fails c x ∧ (if test x then own else .ofStore x) = e :=
  mapError_fails

/-! ## Refusals -/

theorem fails_of_absent {rest : Event → Work ServiceError α} (h : c.event? event = none) :
    (transaction (getEvent event >>= rest)).Fails c (.notFound .event event.uuid) := by
  have hget : (getEvent event).Fails c (.notFound .event event.uuid) :=
    getEvent_fails.mpr ⟨h, rfl⟩
  exact (hget.bind rest).transaction

theorem fails_of_refused (refused : Event → Bool) {rest : Event → Work ServiceError α}
    (he : c.event? event = some x) (hrefused : refused x = true) :
    (transaction (getEvent event >>= fun y => failIf (refused y) e >>= fun _ => rest y)).Fails c
      e := by
  have hget : (getEvent event).Yields c x c := getEvent_yields.mpr ⟨he, rfl⟩
  have hfail : (failIf (refused x) e).Fails c e := failIf_fails.mpr ⟨hrefused, rfl⟩
  exact (hget.bind_fails.mpr (hfail.bind _)).transaction

theorem fails_of_passed (refused : Event → Bool) {own : ServiceError}
    {rest : Event → Work ServiceError α} (he : c.event? event = some x)
    (hpassed : refused x = false) (h : (rest x).Fails c e) :
    (transaction (getEvent event >>= fun y => failIf (refused y) own >>= fun _ => rest y)).Fails c
      e := by
  have hget : (getEvent event).Yields c x c := getEvent_yields.mpr ⟨he, rfl⟩
  have hpass : (failIf (refused x) own).Yields c () c := failIf_yields.mpr ⟨hpassed, rfl⟩
  exact (hget.bind_fails.mpr (hpass.bind_fails.mpr h)).transaction

end Service

end CardClub
