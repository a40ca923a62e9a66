import CardClub.Proofs.PartialSums
import CardClub.Proofs.Reordering
import Mathlib.Data.List.Forall2

/-!
# Paying a plan

A plan in which no membership stands twice is netted to its own awards, and it can be paid exactly
if each of its memberships has room for its award. Paying adds each award to the ranking of its
membership, makes a ranking without attendance where there was none, and touches no other row.
-/

namespace CardClub

/-- What a plan that is paid makes of a ranking. -/
inductive Ranking.PaidBy (plan : List Award) (r : Ranking) : Ranking → Prop where
  | award {a : Award} (ha : a ∈ plan) (hm : a.membershipId = r.membershipId) :
      PaidBy plan r { r with points := r.points + a.points }
  | other (h : r.membershipId ∉ plan.map (·.membershipId)) : PaidBy plan r r

/-- What a plan that is paid makes of some rankings: the rows that were there come first, and behind
them one row for each membership of the plan that had none. -/
def Paid (plan : List Award) (rankings rankings' : List Ranking) : Prop :=
  ∃ kept fresh, rankings' = kept ++ fresh ∧ List.Forall₂ (Ranking.PaidBy plan) rankings kept ∧
    (fresh.map (·.membershipId)).Nodup ∧
    ∀ r, r ∈ fresh ↔ ∃ a ∈ plan, a.membershipId ∉ rankings.map (·.membershipId) ∧
      r = ⟨a.membershipId, a.points, 0⟩

variable {m : MembershipId} {points : Int} {deltas deltas' : List (MembershipId × Int)}
  {plan : List Award} {rankings rankings' : List Ranking}

theorem keys_plan : (plan.map Award.delta).map (·.1) = plan.map (·.membershipId) := by
  rw [List.map_map]
  rfl

theorem owed_plan (hplan : (plan.map (·.membershipId)).Nodup) {a : Award} (ha : a ∈ plan) :
    owed (plan.map Award.delta) a.membershipId = a.points :=
  owed_of_mem (keys_plan ▸ hplan) (List.mem_map_of_mem (f := Award.delta) ha)

/-! ## Netting -/

theorem pointsFor_of_mem (hplan : (plan.map (·.membershipId)).Nodup) {a : Award} (ha : a ∈ plan) :
    Award.pointsFor plan a.membershipId = [a.points] := by
  rw [Award.pointsFor, filter_key hplan ha, List.map_singleton]

theorem netDeltas_succeeds (hplan : (plan.map (·.membershipId)).Nodup)
    (hfits : ∀ a ∈ plan, fitsPoints a.points = true) : ∃ deltas, netDeltas plan = .ok deltas := by
  cases hnet : netDeltas plan with
  | ok deltas => exact ⟨deltas, rfl⟩
  | error m =>
      obtain ⟨first, hfirst, hout⟩ := overflows_of_netDeltas hnet
      -- a partial sum is empty or the points of the one award of the membership
      cases first with
      | nil => cases hout
      | cons n rest =>
          obtain ⟨a, ha, rfl, -⟩ := Award.mem_pointsFor.mp (hfirst.subset List.mem_cons_self)
          rw [pointsFor_of_mem hplan ha, List.cons_prefix_cons, List.prefix_nil] at hfirst
          obtain ⟨rfl, rfl⟩ := hfirst
          rw [List.sum_singleton, hfits a ha] at hout
          cases hout

/-! ## Crediting -/

/-- Whether a plan can be paid is decided by each membership on its own. -/
theorem payable_iff (hplan : (plan.map (·.membershipId)).Nodup)
    (hfits : ∀ a ∈ plan, fitsPoints a.points = true)
    (hrange : ∀ m, fitsPoints (pointsIn rankings m) = true) :
    (∃ deltas rankings', netDeltas plan = .ok deltas ∧
        deltas.foldlM Statement.creditRanking rankings = .ok rankings') ↔
      ∀ a ∈ plan, fitsPoints (pointsIn rankings a.membershipId + a.points) = true := by
  obtain ⟨deltas, hnet⟩ := netDeltas_succeeds hplan hfits
  obtain ⟨howed, hkeys, hnodup⟩ := netDeltas_ok hnet
  have hcredit := creditAll_ok_iff (Steady.of_nodup hnodup) hrange
  constructor
  · rintro ⟨deltas', rankings', hnet', hfold⟩ a ha
    obtain rfl : deltas = deltas' := Except.ok.inj (hnet.symm.trans hnet')
    have hlast := hcredit.mp ⟨rankings', hfold⟩ a.membershipId
    rwa [howed, owed_plan hplan ha] at hlast
  · intro hroom
    obtain ⟨rankings', hfold⟩ := hcredit.mpr fun m => by
      by_cases hm : m ∈ plan.map (·.membershipId)
      · obtain ⟨a, ha, rfl⟩ := List.mem_map.mp hm
        rw [howed, owed_plan hplan ha]
        exact hroom a ha
      · rw [owed_eq_zero (mt (hkeys m).mp hm), Int.add_zero]
        exact hrange m
    exact ⟨deltas, rankings', hnet, hfold⟩

theorem pointsIn_of_mem (hids : (rankings.map (·.membershipId)).Nodup) {r : Ranking}
    (hr : r ∈ rankings) : pointsIn rankings r.membershipId = r.points :=
  ((mem_iff_ranked hids).mp hr).2

/-- Crediting row by row: those that were there keep their places, and new ones follow. -/
theorem creditAll_rows (hids : (rankings.map (·.membershipId)).Nodup)
    (h : deltas.foldlM Statement.creditRanking rankings = .ok rankings') :
    ∃ fresh : List MembershipId, fresh.Nodup ∧
      (∀ m, m ∈ fresh ↔ m ∈ deltas.map (·.1) ∧ m ∉ rankings.map (·.membershipId)) ∧
      rankings' = (rankings.map fun r => { r with points := r.points + owed deltas r.membershipId })
        ++ fresh.map fun m => ⟨m, owed deltas m, 0⟩ := by
  obtain ⟨fresh, hnodup, hfresh, hrows⟩ := creditAll_ranked h
  have hids' := creditAll_nodup h hids
  refine ⟨fresh, hnodup, hfresh, ?_⟩
  have hranked : ranked rankings' =
      ranked ((rankings.map fun r => { r with points := r.points + owed deltas r.membershipId })
        ++ fresh.map fun m => ⟨m, owed deltas m, 0⟩) := by
    rw [hrows, ranked, ranked, List.map_append, List.map_map, List.map_map]
    rfl
  have hkeys := congrArg (List.map Prod.fst) hranked
  rw [← keys_eq_ranked, ← keys_eq_ranked] at hkeys
  refine rankings_ext hids' hranked fun m hm => ?_
  rw [creditAll_points h]
  rw [hkeys] at hm hids'
  obtain ⟨x, hx, rfl⟩ := List.mem_map.mp hm
  rw [pointsIn_of_mem hids' hx]
  rcases List.mem_append.mp hx with hold | hnew
  · obtain ⟨r, hr, rfl⟩ := List.mem_map.mp hold
    exact congrArg (· + owed deltas r.membershipId) (pointsIn_of_mem hids hr)
  · obtain ⟨n, hn, rfl⟩ := List.mem_map.mp hnew
    rw [pointsIn_eq_zero ((hfresh n).mp hn).2, Int.zero_add]

/-- Paying a plan does to the rankings what the awards say. -/
theorem paid_of_netDeltas (hplan : (plan.map (·.membershipId)).Nodup)
    (hids : (rankings.map (·.membershipId)).Nodup) (hnet : netDeltas plan = .ok deltas)
    (hfold : deltas.foldlM Statement.creditRanking rankings = .ok rankings') :
    Paid plan rankings rankings' := by
  obtain ⟨howed, hkeys, -⟩ := netDeltas_ok hnet
  obtain ⟨fresh, hnodup, hfresh, rfl⟩ := creditAll_rows hids hfold
  refine ⟨_, _, rfl, ?_, ?_, fun r => ?_⟩
  · rw [List.forall₂_map_right_iff, List.forall₂_same]
    intro r _
    rw [howed]
    by_cases hm : r.membershipId ∈ plan.map (·.membershipId)
    · obtain ⟨a, ha, hm⟩ := List.mem_map.mp hm
      have howed := owed_plan hplan ha
      rw [hm] at howed
      rw [howed]
      exact .award ha hm
    · rw [owed_eq_zero (keys_plan ▸ hm), Int.add_zero]
      exact .other hm
  · rw [List.map_map]
    simpa [Function.comp_def] using hnodup
  · constructor
    · intro hr
      obtain ⟨m, hm, rfl⟩ := List.mem_map.mp hr
      obtain ⟨hkey, hnone⟩ := (hfresh m).mp hm
      obtain ⟨a, ha, rfl⟩ := List.mem_map.mp ((hkeys m).mp hkey)
      exact ⟨a, ha, hnone, by rw [howed, owed_plan hplan ha]⟩
    · rintro ⟨a, ha, hnone, rfl⟩
      refine List.mem_map.mpr ⟨a.membershipId, (hfresh _).mpr ⟨?_, hnone⟩, ?_⟩
      · exact (hkeys _).mpr (List.mem_map_of_mem ha)
      · rw [howed, owed_plan hplan ha]

end CardClub
