import CardClub.Proofs.Award
import CardClub.Proofs.Table
import CardClub.Service.Closing

/-!
# Netting plans

Netting a plan gives one delta for each membership of the plan, in the order of their identifiers,
and keeps what is owed to each of them. The debits of a plan net to the deltas of the plan with
their signs turned.
-/

namespace CardClub

/-- The sum of the deltas of a membership. -/
def owed (deltas : List (MembershipId × Int)) (m : MembershipId) : Int :=
  (deltas.map fun d => if d.1 = m then d.2 else 0).sum

def negated (deltas : List (MembershipId × Int)) : List (MembershipId × Int) :=
  deltas.map fun d => (d.1, -d.2)

/-- What an award adds to a ranking. -/
def Award.delta (a : Award) : MembershipId × Int := (a.membershipId, a.points)

/-- The award that takes an award back. -/
def Award.debit (a : Award) : Award := { a with points := -a.points }

variable {m n : MembershipId} {points : Int} {deltas deltas' : List (MembershipId × Int)}

@[simp] theorem owed_nil : owed [] m = 0 := rfl

@[simp] theorem owed_cons {d : MembershipId × Int} :
    owed (d :: deltas) m = (if d.1 = m then d.2 else 0) + owed deltas m := rfl

theorem owed_append : owed (deltas ++ deltas') m = owed deltas m + owed deltas' m := by
  simp [owed]

theorem owed_perm (h : deltas.Perm deltas') : owed deltas m = owed deltas' m :=
  (h.map _).sum_eq

theorem owed_negated : owed (negated deltas) m = -owed deltas m := by
  induction deltas with
  | nil => rfl
  | cons d deltas ih =>
      rw [negated] at ih ⊢
      rw [List.map_cons, owed_cons, owed_cons, ih]
      split <;> omega

theorem keys_negated : (negated deltas).map (·.1) = deltas.map (·.1) := by
  simp [negated, Function.comp_def]

theorem owed_map_key {α : Type} {key : α → MembershipId} {f : α → Int} {l : List α}
    (hl : (l.map key).Nodup) :
    owed (l.map fun a => (key a, f a)) m =
    ((l.find? fun a => decide (key a = m)).map f).getD 0 := by
  induction l with
  | nil => rfl
  | cons a l ih =>
      obtain ⟨ha, hl⟩ := List.nodup_cons.mp hl
      rw [List.map_cons, owed_cons, ih hl, List.find?_cons]
      by_cases hkey : key a = m
      · have hnone : (l.find? fun b => decide (key b = m)) = none :=
          find?_key_eq_none.mpr (hkey ▸ ha)
        simp [hkey, hnone]
      · simp [hkey]

theorem owed_of_mem {d : MembershipId × Int} (hkeys : (deltas.map (·.1)).Nodup) (hd : d ∈ deltas) :
    owed deltas d.1 = d.2 := by
  have howed := owed_map_key (m := d.1) (f := fun x : MembershipId × Int => x.2) hkeys
  rw [find?_key hkeys hd] at howed
  simpa using howed

/-! ## Netting -/

/-- Points go to the entry of their membership, or make one where there is none. -/
theorem addDelta_some (h : addDelta m points deltas = some deltas') :
    ∃ before total after, deltas' = before ++ (m, total + points) :: after ∧
      (deltas = before ++ (m, total) :: after ∨ total = 0 ∧ deltas = before ++ after) := by
  induction deltas generalizing deltas' with
  | nil =>
      obtain ⟨total, htotal, rfl⟩ := Option.map_eq_some_iff.mp h
      obtain ⟨-, rfl⟩ := addPoints?_eq_some.mp htotal
      exact ⟨[], 0, [], rfl, .inr ⟨rfl, rfl⟩⟩
  | cons d rest ih =>
      obtain ⟨k, total⟩ := d
      rw [addDelta] at h
      split at h
      · obtain ⟨own, hown, rfl⟩ := Option.map_eq_some_iff.mp h
        obtain ⟨-, rfl⟩ := addPoints?_eq_some.mp hown
        exact ⟨[], 0, (k, total) :: rest, rfl, .inr ⟨rfl, rfl⟩⟩
      · split at h
        · next heq =>
          subst heq
          obtain ⟨sum, hsum, rfl⟩ := Option.map_eq_some_iff.mp h
          obtain ⟨-, rfl⟩ := addPoints?_eq_some.mp hsum
          exact ⟨[], total, rest, rfl, .inl rfl⟩
        · obtain ⟨rest', hrest, rfl⟩ := Option.map_eq_some_iff.mp h
          obtain ⟨before, own, after, rfl, hcases⟩ := ih hrest
          refine ⟨(k, total) :: before, own, after, rfl, hcases.imp ?_ ?_⟩
          · rintro rfl
            rfl
          · rintro ⟨hown, rfl⟩
            exact ⟨hown, rfl⟩

theorem addDelta_owed (h : addDelta m points deltas = some deltas') (n : MembershipId) :
    owed deltas' n = owed deltas n + if m = n then points else 0 := by
  obtain ⟨before, total, after, rfl, rfl | ⟨rfl, rfl⟩⟩ := addDelta_some h
  · simp only [owed_append, owed_cons]
    split <;> omega
  · simp only [owed_append, owed_cons]
    split <;> omega

theorem addDelta_sum (h : addDelta m points deltas = some deltas') :
    (deltas'.map (·.2)).sum = (deltas.map (·.2)).sum + points := by
  obtain ⟨before, total, after, rfl, rfl | ⟨rfl, rfl⟩⟩ := addDelta_some h
  · simp only [List.map_append, List.map_cons, List.sum_append, List.sum_cons]
    omega
  · simp only [List.map_append, List.map_cons, List.sum_append, List.sum_cons]
    omega

theorem addDelta_keys (h : addDelta m points deltas = some deltas') :
    n ∈ deltas'.map (·.1) ↔ n = m ∨ n ∈ deltas.map (·.1) := by
  obtain ⟨before, total, after, rfl, rfl | ⟨-, rfl⟩⟩ := addDelta_some h
  · simp only [List.map_append, List.map_cons, List.mem_append, List.mem_cons]
    tauto
  · simp only [List.map_append, List.map_cons, List.mem_append, List.mem_cons]
    tauto

theorem addDelta_ascending (h : addDelta m points deltas = some deltas')
    (hs : (deltas.map (·.1)).Pairwise (· < ·)) : (deltas'.map (·.1)).Pairwise (· < ·) := by
  induction deltas generalizing deltas' with
  | nil =>
      obtain ⟨total, -, rfl⟩ := Option.map_eq_some_iff.mp h
      simp
  | cons d rest ih =>
      obtain ⟨k, total⟩ := d
      obtain ⟨hhead, htail⟩ := List.pairwise_cons.mp hs
      rw [addDelta] at h
      split at h
      · next hlt =>
        obtain ⟨own, -, rfl⟩ := Option.map_eq_some_iff.mp h
        refine List.pairwise_cons.mpr ⟨fun x hx => ?_, hs⟩
        rcases List.mem_cons.mp hx with rfl | hx
        · exact hlt
        · exact Nat.lt_trans hlt (hhead x hx)
      · next hge =>
        split at h
        · obtain ⟨sum, -, rfl⟩ := Option.map_eq_some_iff.mp h
          exact hs
        · next hne =>
          obtain ⟨rest', hrest, rfl⟩ := Option.map_eq_some_iff.mp h
          refine List.pairwise_cons.mpr ⟨fun x hx => ?_, ih hrest htail⟩
          rcases (addDelta_keys hrest).mp hx with rfl | hx
          · rcases Id.le_total k x with hle | hle
            · refine Nat.lt_of_le_of_ne hle fun heq => hne ?_
              exact Id.ext_uuid (Uuid.ext_number heq.symm)
            · refine absurd (Nat.lt_of_le_of_ne hle fun heq => hne ?_) hge
              exact Id.ext_uuid (Uuid.ext_number heq)
          · exact hhead x hx

theorem addPoints?_neg {a b c : Int} (ha : 0 ≤ a) (hb : 0 ≤ b) (h : addPoints? a b = some c) :
    addPoints? (-a) (-b) = some (-c) ∧ 0 ≤ c := by
  obtain ⟨hfits, rfl⟩ := addPoints?_eq_some.mp h
  have hsum : -a + -b = -(a + b) := by omega
  exact ⟨addPoints?_eq_some.mpr ⟨hsum ▸ fitsPoints_neg (by omega) hfits, hsum⟩, by omega⟩

theorem addDelta_neg (h : addDelta m points deltas = some deltas') (hpoints : 0 ≤ points)
    (hdeltas : ∀ d ∈ deltas, 0 ≤ d.2) :
    addDelta m (-points) (negated deltas) = some (negated deltas') ∧ ∀ d ∈ deltas', 0 ≤ d.2 := by
  induction deltas generalizing deltas' with
  | nil =>
      obtain ⟨total, htotal, rfl⟩ := Option.map_eq_some_iff.mp h
      obtain ⟨hneg, hle⟩ := addPoints?_neg (Int.le_refl 0) hpoints htotal
      rw [Int.neg_zero] at hneg
      exact ⟨by simp [negated, addDelta, hneg], by simpa using hle⟩
  | cons d rest ih =>
      obtain ⟨k, total⟩ := d
      obtain ⟨htotal, hrest⟩ := List.forall_mem_cons.mp hdeltas
      rw [negated, List.map_cons, ← negated]
      rw [addDelta] at h ⊢
      split at h
      · next hlt =>
        obtain ⟨own, hown, rfl⟩ := Option.map_eq_some_iff.mp h
        obtain ⟨hneg, hle⟩ := addPoints?_neg (Int.le_refl 0) hpoints hown
        rw [Int.neg_zero] at hneg
        rw [if_pos hlt, hneg]
        exact ⟨rfl, List.forall_mem_cons.mpr ⟨hle, hdeltas⟩⟩
      · next hge =>
        rw [if_neg hge]
        split at h
        · next heq =>
          obtain ⟨sum, hsum, rfl⟩ := Option.map_eq_some_iff.mp h
          obtain ⟨hneg, hle⟩ := addPoints?_neg htotal hpoints hsum
          rw [if_pos heq, hneg]
          exact ⟨rfl, List.forall_mem_cons.mpr ⟨hle, hrest⟩⟩
        · next hne =>
          obtain ⟨rest', hrest', rfl⟩ := Option.map_eq_some_iff.mp h
          obtain ⟨hneg, hle⟩ := ih hrest' hrest
          rw [if_neg hne, hneg]
          exact ⟨rfl, List.forall_mem_cons.mpr ⟨htotal, hle⟩⟩

theorem netFrom_cons_ok {a : Award} {plan : List Award} :
    netFrom deltas (a :: plan) = .ok deltas' ↔
      ∃ next, addDelta a.membershipId a.points deltas = some next ∧
      netFrom next plan = .ok deltas' := by
  rw [netFrom]
  cases addDelta a.membershipId a.points deltas <;> simp

theorem netFrom_ok {plan : List Award} (h : netFrom deltas plan = .ok deltas') :
    (∀ m, owed deltas' m = owed deltas m + owed (plan.map Award.delta) m) ∧
      (∀ m, m ∈ deltas'.map (·.1) ↔ m ∈ deltas.map (·.1) ∨ m ∈ plan.map (·.membershipId)) ∧
      ((deltas.map (·.1)).Pairwise (· < ·) → (deltas'.map (·.1)).Pairwise (· < ·)) := by
  induction plan generalizing deltas with
  | nil =>
      obtain rfl := Except.ok.inj h
      simp
  | cons a plan ih =>
      obtain ⟨next, hnext, hrest⟩ := netFrom_cons_ok.mp h
      obtain ⟨howed, hkeys, hascending⟩ := ih hrest
      refine ⟨fun m => ?_, fun m => ?_, fun hs => hascending (addDelta_ascending hnext hs)⟩
      · rw [howed, addDelta_owed hnext, List.map_cons, owed_cons, Award.delta, Int.add_assoc]
      · rw [hkeys, addDelta_keys hnext, List.map_cons, List.mem_cons]
        exact or_assoc.trans or_left_comm

/-- Netting owes each membership what the plan brings to it, and has one delta for each of them. -/
theorem netDeltas_ok {plan : List Award} (h : netDeltas plan = .ok deltas) :
    (∀ m, owed deltas m = owed (plan.map Award.delta) m) ∧
      (∀ m, m ∈ deltas.map (·.1) ↔ m ∈ plan.map (·.membershipId)) ∧ (deltas.map (·.1)).Nodup := by
  obtain ⟨howed, hkeys, hascending⟩ := netFrom_ok h
  refine ⟨fun m => by simpa using howed m, fun m => by simpa using hkeys m, ?_⟩
  refine (hascending List.Pairwise.nil).imp fun {k k'} (hlt : k < k') (heq : k = k') => ?_
  rw [heq] at hlt
  exact Nat.lt_irrefl _ hlt

theorem owed_of_netDeltas {plan : List Award} {d : MembershipId × Int}
    (h : netDeltas plan = .ok deltas) (hd : d ∈ deltas) :
    owed (plan.map Award.delta) d.1 = d.2 := by
  obtain ⟨howed, -, hkeys⟩ := netDeltas_ok h
  rw [← howed, owed_of_mem hkeys hd]

theorem netFrom_debits {plan : List Award} (h : netFrom deltas plan = .ok deltas')
    (hplan : ∀ a ∈ plan, 0 ≤ a.points) (hdeltas : ∀ d ∈ deltas, 0 ≤ d.2) :
    netFrom (negated deltas) (plan.map Award.debit) = .ok (negated deltas') := by
  induction plan generalizing deltas with
  | nil =>
      obtain rfl := Except.ok.inj h
      rfl
  | cons a plan ih =>
      obtain ⟨next, hnext, hrest⟩ := netFrom_cons_ok.mp h
      obtain ⟨ha, hplan⟩ := List.forall_mem_cons.mp hplan
      obtain ⟨hneg, hle⟩ := addDelta_neg hnext ha hdeltas
      exact netFrom_cons_ok.mpr ⟨_, hneg, ih hrest hplan hle⟩

theorem netDeltas_debits {plan : List Award} (h : netDeltas plan = .ok deltas)
    (hplan : ∀ a ∈ plan, 0 ≤ a.points) : netDeltas (plan.map Award.debit) = .ok (negated deltas) :=
  netFrom_debits h hplan (by simp)

end CardClub
