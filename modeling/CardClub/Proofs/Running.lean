import CardClub.Work

/-!
# Running work

An armed failure can only make work fail: work that succeeds does to the tables what it does when
nothing is armed. So what a call does is stated once, by `Work.Yields`, without armed failures. Two
further properties pass through the combinators: a property of tables that every statement keeps is
kept by all work, and work that reads before a single write or a transaction changes nothing when it
fails.
-/

namespace CardClub.Work

variable {ε δ α β : Type}

/-- Without an armed failure, the work succeeds with an answer and leaves certain tables. -/
def Yields (w : Work ε α) (c : Club) (a : α) (c' : Club) : Prop :=
  w.run ⟨c, none⟩ = (.ok a, ⟨c', none⟩)

/-- The work arms no failure, and an armed failure that does not make it fail has no effect on its
answer and on the tables. -/
structure Regular (w : Work ε α) : Prop where
  unarmed : ∀ c, (w.run ⟨c, none⟩).2.armed = none
  yields : ∀ {s a s'}, w.run s = (.ok a, s') → w.Yields s.club a s'.club

/-- The work changes no table. -/
def Quiet (w : Work ε α) : Prop := ∀ s, (w.run s).2.club = s.club

/-- The work changes no table when it fails. -/
def Atomic (w : Work ε α) : Prop := ∀ s e s', w.run s = (.error e, s') → s'.club = s.club

/-- Whether it succeeds or fails, the work keeps a property of the tables. -/
def Preserves (P : Club → Prop) (w : Work ε α) : Prop := ∀ s, P s.club → P (w.run s).2.club

/-! ## Answers of the combinators -/

variable {w : Work ε α} {next : α → Work ε β} {c c' : Club} {a a' : α} {b : β}

theorem Yields.unique {c₁ : Club} (h : w.Yields c a c') (h' : w.Yields c a' c₁) :
    a = a' ∧ c' = c₁ := by
  have heq := h.symm.trans h'
  simp only [Prod.mk.injEq, Except.ok.injEq, Session.mk.injEq, and_true] at heq
  exact heq

@[simp] theorem give_yields : (give a : Work ε α).Yields c a' c' ↔ a = a' ∧ c = c' := by
  simp [Yields]

@[simp] theorem pure_yields : (pure a : Work ε α).Yields c a' c' ↔ a = a' ∧ c = c' :=
  give_yields

@[simp] theorem fail_yields {e : ε} : ¬ (fail e : Work ε α).Yields c a c' := by
  simp [Yields]

@[simp] theorem read_yields {view : Club → α} :
    (read view : Work ε α).Yields c a c' ↔ view c = a ∧ c = c' := by
  simp [Yields]

@[simp] theorem failIf_yields {condition : Bool} {e : ε} {u : Unit} :
    (failIf condition e).Yields c u c' ↔ condition = false ∧ c = c' := by
  cases condition <;> simp [failIf]

@[simp] theorem require_yields {value : Option α} {e : ε} :
    (require value e).Yields c a c' ↔ value = some a ∧ c = c' := by
  cases value <;> simp [require]

@[simp] theorem ofExcept_yields {f : δ → ε} {r : Except δ α} :
    (ofExcept f r).Yields c a c' ↔ r = .ok a ∧ c = c' := by
  cases r <;> simp [ofExcept]

theorem mapError_run (f : δ → ε) (w : Work δ α) (s : Session) :
    (w.mapError f).run s = ((w.run s).1.mapError f, (w.run s).2) := by
  simp only [run, mapError]
  split
  · next h => rw [h]; rfl
  · next h => rw [h]; rfl

@[simp] theorem mapError_yields {f : δ → ε} {w : Work δ α} :
    (w.mapError f).Yields c a c' ↔ w.Yields c a c' := by
  simp only [Yields, run, mapError]
  split <;> simp_all

@[simp] theorem write_yields {table : Table} {statement : Statement α} :
    (write table statement).Yields c a c' ↔ statement c = .ok (a, c') := by
  simp only [Yields, run, write, Session.reach_unarmed]
  split <;> simp_all

theorem map_yields {f : α → β} : (f <$> w).Yields c b c' ↔ ∃ a, w.Yields c a c' ∧ f a = b := by
  have hrun : (f <$> w).run ⟨c, none⟩ = (w >>= fun a => pure (f a)).run ⟨c, none⟩ := rfl
  simp only [Yields, hrun, bind_run]
  rcases w.run ⟨c, none⟩ with ⟨r, t⟩
  cases r with
  | error e => simp
  | ok a =>
      simp only [pure_run, Prod.mk.injEq, Except.ok.injEq]
      exact ⟨fun ⟨hb, ht⟩ => ⟨a, ⟨rfl, ht⟩, hb⟩, fun ⟨_, ⟨ha, ht⟩, hb⟩ => ⟨ha ▸ hb, ht⟩⟩

/-- Work in sequence yields what the second part yields after the first. -/
theorem bind_yields (hw : Regular w) :
    (w >>= next).Yields c b c' ↔ ∃ a c₁, w.Yields c a c₁ ∧ (next a).Yields c₁ b c' := by
  have harmed := hw.unarmed c
  simp only [Yields, bind_run]
  rcases hrun : w.run ⟨c, none⟩ with ⟨r, ⟨c₁, armed⟩⟩
  rw [hrun] at harmed
  dsimp only at harmed
  subst harmed
  cases r with
  | error e => simp
  | ok a =>
      constructor
      · exact fun h => ⟨a, c₁, rfl, h⟩
      · rintro ⟨a', c₂, heq, h⟩
        simp only [Prod.mk.injEq, Except.ok.injEq, Session.mk.injEq, and_true] at heq
        obtain ⟨rfl, rfl⟩ := heq
        exact h

@[simp] theorem transaction_yields {body : Work ServiceError α} :
    (transaction body).Yields c a c' ↔ body.Yields c a c' := by
  simp only [Yields, run, transaction, Session.reach_unarmed]
  rcases hrun : body ⟨c, none⟩ with ⟨r, ⟨c₁, armed⟩⟩
  cases r with
  | error e => simp
  | ok a' =>
      cases armed with
      | none => simp
      | some fault =>
          -- the commit trips over a failure that is still armed, or leaves it armed
          by_cases hmoment : fault.moment = .commit
          · by_cases hlast : fault.countdown ≤ 1 <;> simp [Session.reach, hmoment, hlast]
          · simp [Session.reach, hmoment]

/-- A transaction that succeeds has run its body and keeps what the body has written. -/
theorem transaction_ok {body : Work ServiceError α} {s s' : Session}
    (h : (transaction body).run s = (.ok a, s')) :
    ∃ t after, t.club = s.club ∧ body.run t = (.ok a, after) ∧ s'.club = after.club := by
  have hbegin := s.reach_club .begin
  simp only [run, transaction] at h
  split at h
  · simp at h
  · next t hreach =>
    rw [hreach] at hbegin
    split at h
    · next answer after hrun =>
      have hcommit := after.reach_club .commit
      split at h
      · next last hreach' =>
        rw [hreach'] at hcommit
        obtain ⟨ha, rfl⟩ := Prod.mk.inj h
        exact ⟨t, after, hbegin, by rw [run, hrun, Except.ok.inj ha], hcommit⟩
      · simp at h
    · simp at h

/-! ## Regular work -/

@[simp] theorem regular_give : Regular (give a : Work ε α) := by
  refine ⟨fun _ => rfl, fun h => ?_⟩
  obtain ⟨ha, rfl⟩ := Prod.mk.inj h
  exact give_yields.mpr ⟨Except.ok.inj ha, rfl⟩

@[simp] theorem regular_pure : Regular (pure a : Work ε α) := regular_give

@[simp] theorem regular_fail {e : ε} : Regular (fail e : Work ε α) :=
  ⟨fun _ => rfl, fun h => by simp at h⟩

@[simp] theorem regular_read {view : Club → α} : Regular (read view : Work ε α) := by
  refine ⟨fun _ => rfl, fun h => ?_⟩
  obtain ⟨ha, rfl⟩ := Prod.mk.inj h
  exact read_yields.mpr ⟨Except.ok.inj ha, rfl⟩

@[simp] theorem regular_failIf {condition : Bool} {e : ε} : Regular (failIf condition e) := by
  cases condition
  · exact regular_give
  · exact regular_fail

@[simp] theorem regular_require {value : Option α} {e : ε} : Regular (require value e) := by
  cases value
  · exact regular_fail
  · exact regular_give

@[simp] theorem regular_ofExcept {f : δ → ε} {r : Except δ α} : Regular (ofExcept f r) := by
  cases r
  · exact regular_fail
  · exact regular_give

@[simp] theorem Regular.mapError {w : Work δ α} (hw : Regular w) (f : δ → ε) :
    Regular (w.mapError f) := by
  refine ⟨fun c => mapError_run f w _ ▸ hw.unarmed c, fun {s a s'} h => ?_⟩
  refine mapError_yields.mpr (hw.yields ?_)
  rw [mapError_run] at h
  obtain ⟨hr, rfl⟩ := Prod.mk.inj h
  rcases hws : w.run s with ⟨r, t⟩
  rw [hws] at hr
  cases r with
  | error e => cases hr
  | ok a =>
      cases hr
      rfl

@[simp] theorem Regular.bind (hw : Regular w) (hnext : ∀ a, Regular (next a)) :
    Regular (w >>= next) := by
  constructor
  · intro c
    have harmed := hw.unarmed c
    rw [bind_run]
    rcases hrun : w.run ⟨c, none⟩ with ⟨r, ⟨c₁, armed⟩⟩
    rw [hrun] at harmed
    dsimp only at harmed
    subst harmed
    cases r with
    | error e => rfl
    | ok a => exact (hnext a).unarmed c₁
  · intro s b s' h
    rw [bind_run] at h
    rcases hrun : w.run s with ⟨r, t⟩
    rw [hrun] at h
    cases r with
    | error e => simp at h
    | ok a => exact (bind_yields hw).mpr ⟨a, t.club, hw.yields hrun, (hnext a).yields h⟩

@[simp] theorem Regular.map (hw : Regular w) (f : α → β) : Regular (f <$> w) :=
  hw.bind fun _ => regular_pure

@[simp] theorem regular_write {table : Table} {statement : Statement α} :
    Regular (write table statement) := by
  constructor
  · intro c
    simp only [run, write, Session.reach_unarmed]
    split <;> rfl
  · intro s a s' h
    have hclub := s.reach_club (.write table)
    simp only [run, write] at h
    split at h
    · simp at h
    · next t hreach =>
      rw [hreach] at hclub
      split at h
      · next hst =>
        simp only [Prod.mk.injEq, Except.ok.injEq] at h
        obtain ⟨rfl, rfl⟩ := h
        exact write_yields.mpr (hclub ▸ hst)
      · simp at h

@[simp] theorem Regular.transaction {body : Work ServiceError α} (hbody : Regular body) :
    Regular (transaction body) := by
  constructor
  · intro c
    have harmed := hbody.unarmed c
    simp only [run, Work.transaction, Session.reach_unarmed] at harmed ⊢
    rcases hrun : body ⟨c, none⟩ with ⟨r, ⟨c₁, armed⟩⟩
    rw [hrun] at harmed
    dsimp only at harmed
    subst harmed
    cases r <;> rfl
  · intro s a s' h
    obtain ⟨t, after, hbegin, hrun, hlast⟩ := transaction_ok h
    rw [transaction_yields, ← hbegin, hlast]
    exact hbody.yields hrun

/-! ## Work that changes nothing when it fails -/

theorem quiet_read {view : Club → α} : Quiet (read view : Work ε α) := fun _ => rfl

theorem quiet_pure : Quiet (pure a : Work ε α) := fun _ => rfl

theorem quiet_fail {e : ε} : Quiet (fail e : Work ε α) := fun _ => rfl

theorem quiet_require {value : Option α} {e : ε} : Quiet (require value e) := by
  cases value <;> exact fun _ => rfl

theorem quiet_ofExcept {f : δ → ε} {r : Except δ α} : Quiet (ofExcept f r) := by
  cases r <;> exact fun _ => rfl

theorem Quiet.mapError {w : Work δ α} (hw : Quiet w) (f : δ → ε) : Quiet (w.mapError f) := by
  intro s
  rw [mapError_run]
  exact hw s

theorem Quiet.bind (hw : Quiet w) (hnext : ∀ a, Quiet (next a)) : Quiet (w >>= next) := by
  intro s
  have hs := hw s
  rw [bind_run]
  rcases hrun : w.run s with ⟨r, t⟩
  rw [hrun] at hs
  cases r with
  | error e => exact hs
  | ok a => exact (hnext a t).trans hs

theorem Quiet.atomic (hw : Quiet w) : Atomic w := by
  intro s e s' h
  rw [← hw s, h]

theorem Quiet.bind_atomic (hw : Quiet w) (hnext : ∀ a, Atomic (next a)) : Atomic (w >>= next) := by
  intro s e s' h
  have hs := hw s
  rw [bind_run] at h
  rcases hrun : w.run s with ⟨r, t⟩
  rw [hrun] at hs h
  cases r with
  | error e' =>
      obtain ⟨-, rfl⟩ := Prod.mk.inj h
      exact hs
  | ok a => exact (hnext a t e s' h).trans hs

theorem Atomic.mapError {w : Work δ α} (hw : Atomic w) (f : δ → ε) : Atomic (w.mapError f) := by
  intro s e s' h
  simp only [run, Work.mapError] at h
  split at h
  · simp at h
  · next hrun =>
    obtain ⟨-, rfl⟩ := Prod.mk.inj h
    exact hw _ _ _ hrun

/-- What cannot fail after this work may follow. -/
theorem Atomic.bind_of_ok (hw : Atomic w)
    (hnext : ∀ {s a t}, w.run s = (.ok a, t) → ∃ b u, (next a).run t = (.ok b, u)) :
    Atomic (w >>= next) := by
  intro s e s' h
  rw [bind_run] at h
  rcases hrun : w.run s with ⟨r, t⟩
  rw [hrun] at h
  cases r with
  | error e' =>
      obtain ⟨-, rfl⟩ := Prod.mk.inj h
      exact hw _ _ _ hrun
  | ok a =>
      obtain ⟨b, u, hb⟩ := hnext hrun
      simp [hb] at h

theorem Atomic.map (hw : Atomic w) (f : α → β) : Atomic (f <$> w) :=
  hw.bind_of_ok fun _ => ⟨_, _, rfl⟩

theorem atomic_write {table : Table} {statement : Statement α} :
    Atomic (write table statement) := by
  intro s e s' h
  have hclub := s.reach_club (.write table)
  simp only [run, write] at h
  split at h
  · next t hreach =>
    obtain ⟨-, rfl⟩ := Prod.mk.inj h
    rw [← hclub, hreach]
  · next t hreach =>
    split at h
    · simp at h
    · obtain ⟨-, rfl⟩ := Prod.mk.inj h
      rw [← hclub, hreach]

theorem atomic_transaction {body : Work ServiceError α} : Atomic (transaction body) :=
  fun _ _ _ => transaction_club_of_error

/-! ## Work that keeps a property of the tables -/

variable {P : Club → Prop}

theorem Quiet.preserves (hw : Quiet w) : Preserves P w := by
  intro s hs
  rwa [hw s]

theorem Preserves.mapError {w : Work δ α} (hw : Preserves P w) (f : δ → ε) :
    Preserves P (w.mapError f) := by
  intro s hs
  rw [mapError_run]
  exact hw s hs

theorem Preserves.bind (hw : Preserves P w) (hnext : ∀ a, Preserves P (next a)) :
    Preserves P (w >>= next) := by
  intro s hs
  have hkept := hw s hs
  rw [bind_run]
  rcases hrun : w.run s with ⟨r, t⟩
  rw [hrun] at hkept
  cases r with
  | error e => exact hkept
  | ok a => exact hnext a t hkept

theorem Preserves.map (hw : Preserves P w) (f : α → β) : Preserves P (f <$> w) :=
  hw.bind fun _ => quiet_pure.preserves

theorem preserves_write {table : Table} {statement : Statement α}
    (h : ∀ {c a c'}, statement c = .ok (a, c') → P c → P c') :
    Preserves P (write table statement) := by
  intro s hs
  rcases hrun : (write table statement).run s with ⟨r, t⟩
  cases r with
  | error e => rwa [atomic_write _ _ _ hrun]
  | ok a => exact h (write_yields.mp (regular_write.yields hrun)) hs

theorem Preserves.transaction {body : Work ServiceError α} (hbody : Preserves P body) :
    Preserves P (transaction body) := by
  intro s hs
  rcases hrun : (Work.transaction body).run s with ⟨r, t⟩
  cases r with
  | error e => rwa [atomic_transaction _ _ _ hrun]
  | ok a =>
      obtain ⟨u, after, hbegin, hrun', hlast⟩ := transaction_ok hrun
      have hkept := hbody u (hbegin ▸ hs)
      rw [hrun'] at hkept
      exact hlast ▸ hkept

/-! ## Work on the members of a list -/

variable {ι : Type} {f : ι → Work ε α} {i : ι} {l : List ι} {as : List α}

theorem lawfulMonad : LawfulMonad (Work ε) := by
  refine LawfulMonad.mk' (Work ε) ?_ ?_ ?_
  · intro α w
    funext s
    change andThen w give s = w s
    unfold andThen
    split
    · next heq => exact heq.symm
    · next heq => exact heq.symm
  · exact fun _ _ => rfl
  · intro α β γ w f g
    funext s
    change andThen (andThen w f) g s = andThen w (fun a => andThen (f a) g) s
    simp only [andThen]
    cases w s with
    | mk r t => cases r <;> rfl

theorem mapM_cons_eq : (i :: l).mapM f =
    f i >>= fun a => l.mapM f >>= fun as => pure (a :: as) := by
  have : LawfulMonad (Work ε) := lawfulMonad
  exact List.mapM_cons

@[simp] theorem mapM_nil_yields : (([] : List ι).mapM f).Yields c as c' ↔ as = [] ∧ c = c' := by
  simp [List.mapM_nil, eq_comm]

theorem regular_mapM (hf : ∀ i, Regular (f i)) : Regular (l.mapM f) := by
  induction l with
  | nil => exact regular_pure
  | cons i l ih =>
      rw [mapM_cons_eq]
      exact (hf i).bind fun _ => ih.bind fun _ => regular_pure

theorem mapM_cons_yields (hf : ∀ i, Regular (f i)) :
    ((i :: l).mapM f).Yields c as c' ↔ ∃ a c₁ rest, (f i).Yields c a c₁ ∧
      (l.mapM f).Yields c₁ rest c' ∧ as = a :: rest := by
  rw [mapM_cons_eq, bind_yields (hf i)]
  simp [bind_yields (regular_mapM hf), eq_comm]

theorem mapM_cons_yields_cons (hf : ∀ i, Regular (f i)) :
    ((i :: l).mapM f).Yields c (a :: as) c' ↔
      ∃ c₁, (f i).Yields c a c₁ ∧ (l.mapM f).Yields c₁ as c' := by
  rw [mapM_cons_yields hf]
  constructor
  · rintro ⟨_, c₁, _, hhead, hrest, heq⟩
    obtain ⟨rfl, rfl⟩ := List.cons.inj heq
    exact ⟨c₁, hhead, hrest⟩
  · rintro ⟨c₁, hhead, hrest⟩
    exact ⟨a, c₁, as, hhead, hrest, rfl⟩

/-- Work on the members of a list without repetitions has one answer for each of them. -/
theorem mapM_answers [DecidableEq ι] [Inhabited α] (hf : ∀ i, Regular (f i)) (hl : l.Nodup)
    (h : (l.mapM f).Yields c as c') : ∃ answer : ι → α, as = l.map answer := by
  induction l generalizing c as with
  | nil => exact ⟨fun _ => default, (mapM_nil_yields.mp h).1⟩
  | cons i l ih =>
      obtain ⟨a, c₁, rest, -, hrest, rfl⟩ := (mapM_cons_yields hf).mp h
      obtain ⟨hi, hl⟩ := List.nodup_cons.mp hl
      obtain ⟨answer, rfl⟩ := ih hl hrest
      refine ⟨fun j => if j = i then a else answer j, ?_⟩
      rw [List.map_cons, if_pos rfl]
      refine congrArg _ (List.map_congr_left fun j hj => (if_neg ?_).symm)
      exact ne_of_mem_of_not_mem hj hi

end CardClub.Work
