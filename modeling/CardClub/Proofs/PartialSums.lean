import CardClub.Proofs.Netting

/-!
# Partial sums of a plan

Netting adds the points of each membership in the order of the plan. It gives one delta for each
membership, in the order of their identifiers, and no point is lost: a delta is the sum of what the
plan has for its membership, and the deltas add up to what the plan adds up to. It fails exactly if
a partial sum of the points of one membership leaves the range, even if the whole sum is in range.
-/

namespace CardClub

namespace Award

/-- The points that a plan has for a membership, in the order of the plan. -/
def pointsFor (plan : List Award) (m : MembershipId) : List Int :=
  (plan.filter fun a => decide (a.membershipId = m)).map (·.points)

/-- A partial sum of the points that a plan has for a membership is out of range. -/
def Overflows (plan : List Award) (m : MembershipId) : Prop :=
  ∃ first : List Int, first <+: pointsFor plan m ∧ fitsPoints first.sum = false

/-- The deltas of a plan: one for each membership, in ascending order, and each of them the sum of
what the plan has for the membership. -/
structure Netted (plan : List Award) (deltas : List (MembershipId × Int)) : Prop where
  ascending : (deltas.map (·.1)).Pairwise (· < ·)
  memberships : ∀ m, m ∈ deltas.map (·.1) ↔ m ∈ plan.map (·.membershipId)
  sums : ∀ d ∈ deltas, d.2 = (pointsFor plan d.1).sum
  total : (deltas.map (·.2)).sum = (plan.map (·.points)).sum

end Award

variable {m : MembershipId} {points : Int} {deltas deltas' : List (MembershipId × Int)}
  {plan : List Award} {a : Award}

namespace Award

@[simp] theorem pointsFor_nil : pointsFor [] m = [] := rfl

theorem pointsFor_cons :
    pointsFor (a :: plan) m =
      if a.membershipId = m then a.points :: pointsFor plan m else pointsFor plan m := by
  unfold pointsFor
  rw [List.filter_cons]
  by_cases hm : a.membershipId = m <;> simp [hm]

theorem mem_pointsFor {n : Int} :
    n ∈ pointsFor plan m ↔ ∃ a ∈ plan, a.membershipId = m ∧ a.points = n := by
  simp [pointsFor, and_assoc]

theorem sum_pointsFor : (pointsFor plan m).sum = owed (plan.map delta) m := by
  induction plan with
  | nil => rfl
  | cons a plan ih =>
      rw [pointsFor_cons, List.map_cons, owed_cons, ← ih, delta]
      by_cases hm : a.membershipId = m <;> simp [hm]

end Award

/-! ## The sum of all deltas -/

theorem netFrom_sum (h : netFrom deltas plan = .ok deltas') :
    (deltas'.map (·.2)).sum = (deltas.map (·.2)).sum + (plan.map (·.points)).sum := by
  induction plan generalizing deltas with
  | nil =>
      obtain rfl := Except.ok.inj h
      simp
  | cons a plan ih =>
      obtain ⟨next, hnext, hrest⟩ := netFrom_cons_ok.mp h
      rw [ih hrest, addDelta_sum hnext, List.map_cons, List.sum_cons, Int.add_assoc]

theorem netted_of_netDeltas (h : netDeltas plan = .ok deltas) : Award.Netted plan deltas := by
  obtain ⟨-, hkeys, hascending⟩ := netFrom_ok h
  have htotal := netFrom_sum h
  refine ⟨hascending List.Pairwise.nil, fun m => by simpa using hkeys m, fun d hd => ?_, ?_⟩
  · rw [Award.sum_pointsFor, owed_of_netDeltas h hd]
  · simpa using htotal

/-! ## Where netting fails -/

theorem owed_eq_zero (h : m ∉ deltas.map (·.1)) : owed deltas m = 0 := by
  induction deltas with
  | nil => rfl
  | cons d deltas ih =>
      rw [List.map_cons, List.mem_cons, not_or] at h
      rw [owed_cons, if_neg fun heq => h.1 heq.symm, ih h.2]
      rfl

/-- An award can be netted if the sum for its membership is in range. -/
theorem addDelta_isSome_iff (hs : (deltas.map (·.1)).Pairwise (· < ·)) :
    (addDelta m points deltas).isSome = true ↔ fitsPoints (owed deltas m + points) = true := by
  have hadd (a b : Int) : (addPoints? a b).isSome = true ↔ fitsPoints (a + b) = true := by
    unfold addPoints?
    split <;> simp_all
  induction deltas with
  | nil => rw [addDelta, Option.isSome_map, hadd, owed_nil]
  | cons d deltas ih =>
      obtain ⟨k, total⟩ := d
      obtain ⟨hhead, htail⟩ := List.pairwise_cons.mp hs
      have hbehind (h : m ≤ k) : m ∉ deltas.map (·.1) := fun hmem =>
        Nat.lt_irrefl _ (Nat.lt_of_lt_of_le (hhead m hmem) h)
      rw [addDelta, owed_cons]
      split
      · next hlt =>
        have hne : ¬ k = m := by
          rintro rfl
          exact Nat.lt_irrefl _ hlt
        rw [Option.isSome_map, hadd, if_neg hne, owed_eq_zero (hbehind (Nat.le_of_lt hlt))]
        rfl
      · split
        · next heq =>
          subst heq
          rw [Option.isSome_map, hadd, if_pos rfl, owed_eq_zero (hbehind (Nat.le_refl _)),
            Int.add_zero]
        · next hne =>
          rw [Option.isSome_map, if_neg fun heq => hne heq.symm, Int.zero_add]
          exact ih htail

theorem addDelta_fits (hs : (deltas.map (·.1)).Pairwise (· < ·))
    (h : addDelta m points deltas = some deltas')
    (hfits : ∀ n, fitsPoints (owed deltas n) = true) (n : MembershipId) :
    fitsPoints (owed deltas' n) = true := by
  rw [addDelta_owed h]
  by_cases hm : m = n
  · subst hm
    rw [if_pos rfl]
    exact (addDelta_isSome_iff hs).mp (h ▸ rfl)
  · rw [if_neg hm, Int.add_zero]
    exact hfits n

/-- Where netting succeeds, what a membership is owed stays in range from award to award. -/
theorem fits_of_netFrom (h : netFrom deltas plan = .ok deltas')
    (hs : (deltas.map (·.1)).Pairwise (· < ·)) (hfits : ∀ n, fitsPoints (owed deltas n) = true)
    {first : List Int} (hfirst : first <+: Award.pointsFor plan m) :
    fitsPoints (owed deltas m + first.sum) = true := by
  induction plan generalizing deltas first with
  | nil =>
      obtain rfl := List.prefix_nil.mp hfirst
      simpa using hfits m
  | cons a plan ih =>
      obtain ⟨next, hnext, hrest⟩ := netFrom_cons_ok.mp h
      have hlater {l : List Int} (hl : l <+: Award.pointsFor plan m) :
          fitsPoints (owed next m + l.sum) = true :=
        ih hrest (addDelta_ascending hnext hs) (addDelta_fits hs hnext hfits) hl
      rw [Award.pointsFor_cons] at hfirst
      rw [addDelta_owed hnext] at hlater
      split at hfirst
      · next hm =>
        rcases List.prefix_cons_iff.mp hfirst with rfl | ⟨l, rfl, hl⟩
        · simpa using hfits m
        · rw [List.sum_cons, ← Int.add_assoc]
          simpa only [if_pos hm] using hlater hl
      · next hm => simpa only [if_neg hm, Int.add_zero] using hlater hfirst

/-- The membership at which netting fails has a partial sum that is out of range. -/
theorem overflows_of_netFrom (h : netFrom deltas plan = .error m)
    (hs : (deltas.map (·.1)).Pairwise (· < ·)) :
    ∃ first : List Int, first <+: Award.pointsFor plan m ∧
      fitsPoints (owed deltas m + first.sum) = false := by
  induction plan generalizing deltas with
  | nil => cases h
  | cons a plan ih =>
      rw [netFrom] at h
      split at h
      · next next hnext =>
        obtain ⟨first, hfirst, hout⟩ := ih h (addDelta_ascending hnext hs)
        rw [addDelta_owed hnext] at hout
        by_cases hm : a.membershipId = m
        · rw [if_pos hm, Int.add_assoc] at hout
          refine ⟨a.points :: first, ?_, by rwa [List.sum_cons]⟩
          rw [Award.pointsFor_cons, if_pos hm]
          exact (List.prefix_cons_inj a.points).mpr hfirst
        · rw [if_neg hm, Int.add_zero] at hout
          exact ⟨first, by rwa [Award.pointsFor_cons, if_neg hm], hout⟩
      · next hnone =>
        obtain rfl := Except.error.inj h
        refine ⟨[a.points], ?_, ?_⟩
        · rw [Award.pointsFor_cons, if_pos rfl]
          exact ⟨_, rfl⟩
        · rw [List.sum_singleton, ← Bool.not_eq_true, ← addDelta_isSome_iff hs, hnone]
          exact Bool.false_ne_true

theorem overflows_of_netDeltas (h : netDeltas plan = .error m) : Award.Overflows plan m := by
  obtain ⟨first, hfirst, hout⟩ := overflows_of_netFrom h List.Pairwise.nil
  rw [owed_nil, Int.zero_add] at hout
  exact ⟨first, hfirst, hout⟩

theorem Award.Overflows.netDeltas_fails (h : Award.Overflows plan m) :
    ∃ n, netDeltas plan = .error n := by
  obtain ⟨first, hfirst, hout⟩ := h
  cases hnet : netDeltas plan with
  | error n => exact ⟨n, rfl⟩
  | ok deltas =>
      have hfits := fits_of_netFrom hnet List.Pairwise.nil (fun _ => rfl) hfirst
      rw [owed_nil, Int.zero_add, hout] at hfits
      cases hfits

end CardClub
