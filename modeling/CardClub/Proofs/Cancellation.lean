import CardClub.Proofs.EndEffect
import Mathlib.Algebra.Order.BigOperators.Group.List
import Mathlib.Algebra.Order.Group.Int
import Mathlib.Data.List.Perm.Basic

/-!
# Reversals cancel plans

Once the placements of a plan have been written, its reversal debits each participant what the plan
awarded. Neither the order in which the participants are given nor others without a placement
between them matter. The debits add up to the total of the plan with its sign turned, in whatever
order they are added: awards are never below zero, so no partial sum goes beyond the last one.
-/

namespace CardClub

/-- The award of a plan that has been written into a participant. -/
structure Award.WrittenIn (awards : List Award) (p : Participant) (a : Award) : Prop where
  mem : a ∈ awards
  seat : (a.participantId, a.membershipId) = (p.id, p.membershipId)
  placement : a.placement = p.placement

/-- Whether a debit takes back the award of a plan that has been written into a participant. -/
def Award.Cancels (awards : List Award) (p : Participant) (debit : Award) : Prop :=
  ∃ a, Award.WrittenIn awards p a ∧ debit = a.debit

variable {l mixed others : List Participant} {awards own : List Award}
  {multiplier : Decimal} {start total : Int}

/-! ## Totals -/

theorem eq_of_foldlM_addPoints?
    (h : awards.foldlM (fun total a => addPoints? total a.points) start = some total) :
    total = start + (awards.map (·.points)).sum ∧
      (fitsPoints start = true → fitsPoints total = true) := by
  induction awards generalizing start with
  | nil =>
      obtain rfl := Option.some.inj h
      simp
  | cons a awards ih =>
      rw [List.foldlM_cons, Option.bind_eq_bind, Option.bind_eq_some_iff] at h
      obtain ⟨next, hnext, hrest⟩ := h
      obtain ⟨hfits, rfl⟩ := addPoints?_eq_some.mp hnext
      obtain ⟨rfl, hlast⟩ := ih hrest
      rw [List.map_cons, List.sum_cons, Int.add_assoc]
      exact ⟨rfl, fun _ => Int.add_assoc .. ▸ hlast hfits⟩

/-- The debits of awards can be added up wherever their sum is in range. -/
theorem foldlM_debits (hnonneg : ∀ a ∈ own, 0 ≤ a.points) (hstart : start < pointsLimit)
    (htotal : -(pointsLimit : Int) ≤ start - (own.map (·.points)).sum) :
    (own.map Award.debit).foldlM (fun total d => addPoints? total d.points) start =
      some (start - (own.map (·.points)).sum) := by
  induction own generalizing start with
  | nil => simp
  | cons a own ih =>
      obtain ⟨ha, hnonneg⟩ := List.forall_mem_cons.mp hnonneg
      have hrest : 0 ≤ (own.map (·.points)).sum :=
        List.sum_nonneg (List.forall_mem_map.mpr hnonneg)
      have hsum : ((a :: own).map (·.points)).sum = a.points + (own.map (·.points)).sum :=
        List.sum_cons
      rw [hsum] at htotal ⊢
      -- what is left to debit is not below zero, so this sum is not below the last one
      have hfits : fitsPoints (start + a.debit.points) = true :=
        fitsPoints_iff.mpr (by change _ ≤ start + -a.points ∧ start + -a.points < _; omega)
      have hnext : addPoints? start a.debit.points = some (start - a.points) :=
        addPoints?_eq_some.mpr ⟨hfits, rfl⟩
      rw [List.map_cons, List.foldlM_cons, hnext, Option.bind_eq_bind, Option.bind_some,
        ih hnonneg (by omega) (by omega), Int.sub_sub]

/-- Debits add up to the total of the plan with its sign turned, in whatever order. -/
theorem totalPoints?_debits (hnonneg : ∀ a ∈ awards, 0 ≤ a.points) (hperm : own.Perm awards)
    (h : totalPoints? awards = some total) :
    totalPoints? (own.map Award.debit) = some (-total) := by
  obtain ⟨htotal, hfits⟩ := eq_of_foldlM_addPoints? h
  have hsum : (own.map (·.points)).sum = total := by
    rw [(hperm.map _).sum_eq, htotal, Int.zero_add]
  have hrange := fitsPoints_iff.mp (hfits (by decide))
  have hstart : (0 : Int) < pointsLimit := by decide
  have hadded := foldlM_debits (fun a ha => hnonneg a (hperm.mem_iff.mp ha)) hstart
    (by rw [hsum]; omega)
  rwa [hsum, Int.zero_sub] at hadded

/-! ## The field of a reversal -/

theorem writtenIn_place (hplan : planAwards l multiplier = .ok awards) :
    List.Forall₂ (Award.WrittenIn awards) (place l awards) awards := by
  rw [List.forall₂_iff_zip]
  refine ⟨by simp [place, length_of_planAwards hplan], fun {p a} hmem => ?_⟩
  obtain ⟨hseat, hplacement⟩ := seat_of_mem_planned hplan hmem
  exact ⟨(List.of_mem_zip hmem).2, hseat.symm, hplacement.symm⟩

theorem placed_place (hplan : planAwards l multiplier = .ok awards) :
    placed (place l awards) = place l awards := by
  refine placed_of_pos fun p hp => ?_
  have hlength : (place l awards).length = awards.length := (writtenIn_place hplan).length_eq
  rw [← List.map_fst_zip hlength.le] at hp
  obtain ⟨x, hx, rfl⟩ := List.mem_map.mp hp
  rw [(seat_of_mem_planned hplan hx).2]
  exact (award_of_mem_planned hplan hx).1

theorem placed_perm (hplan : planAwards l multiplier = .ok awards)
    (hothers : ∀ p ∈ others, p.placement = 0) (hmixed : mixed.Perm (place l awards ++ others)) :
    (placed mixed).Perm (place l awards) := by
  have hnone : placed others = [] := by
    refine List.filter_eq_nil_iff.mpr fun p hp => ?_
    simp [hothers p hp]
  have hfilter : (placed mixed).Perm (placed (place l awards ++ others)) := hmixed.filter _
  have happend : placed (place l awards ++ others) = placed (place l awards) ++ placed others :=
    List.filter_append ..
  rwa [happend, hnone, List.append_nil, placed_place hplan] at hfilter

theorem debitFor_written (hplan : planAwards l multiplier = .ok awards) {p : Participant}
    {a : Award} (ha : Award.WrittenIn awards p a) :
    debitFor l.length multiplier p = .ok a.debit := by
  obtain ⟨-, -, -, hpoints⟩ := planAwards_ok.mp hplan
  obtain ⟨hid, hmembership⟩ := Prod.mk.inj ha.seat
  rw [debitFor_of_points (ha.placement ▸ hpoints a ha.mem), ← hid, ← hmembership, ← ha.placement]
  rfl

theorem planReversal_written (hplan : planAwards l multiplier = .ok awards)
    (hplaced : (placed mixed).Perm (place l awards))
    (hown : List.Forall₂ (Award.WrittenIn awards) (placed mixed) own) :
    planReversal mixed multiplier = .ok (own.map Award.debit) := by
  have hlength : (placed mixed).length = l.length := by
    rw [hplaced.length_eq, (writtenIn_place hplan).length_eq, length_of_planAwards hplan]
  have hcount : l.length < countLimit := (planAwards_ok.mp hplan).1
  simp only [planReversal, hlength, hcount, if_true]
  rw [mapM_ok_iff_forall₂, List.forall₂_map_right_iff]
  exact hown.imp fun p a => debitFor_written hplan

/-- A reversal cancels a plan. Its field are the participants of the plan with their placements, in
any order and with any others between them who have no placement. In that order, each of the field
is debited the award of the plan and nobody else is; and if the plan has a total, so has the
reversal, with the sign turned. -/
theorem reversal_cancels_plan (hplan : planAwards l multiplier = .ok awards)
    (hothers : ∀ p ∈ others, p.placement = 0) (hmixed : mixed.Perm (place l awards ++ others)) :
    ∃ debits, planReversal mixed multiplier = .ok debits ∧
      List.Forall₂ (Award.Cancels awards) (mixed.filter fun p => decide (0 < p.placement)) debits ∧
      debits.Perm (awards.map Award.debit) ∧
      ∀ total, totalPoints? awards = some total → totalPoints? debits = some (-total) := by
  have hplaced := placed_perm hplan hothers hmixed
  -- the awards of the plan in the order of the participants
  obtain ⟨own, hown, hperm⟩ := List.perm_comp_forall₂ hplaced (writtenIn_place hplan)
  have hnonneg : ∀ a ∈ awards, 0 ≤ a.points := fun a ha =>
    awardPoints_nonneg ((planAwards_ok.mp hplan).2.2.2 a ha)
  refine ⟨own.map Award.debit, planReversal_written hplan hplaced hown, ?_, hperm.map _,
    fun total => totalPoints?_debits hnonneg hperm⟩
  rw [List.forall₂_map_right_iff]
  exact hown.imp fun p a ha => ⟨a, ha, rfl⟩

/-! ## The night in another order

A third participant without a placement stands between the two who have been placed.
-/

namespace Night

def late : Participant := ⟨⟨uuid 7⟩, ⟨uuid 93⟩, ⟨uuid 4⟩, 0, none, time 7⟩

def shuffled : List Participant :=
  (place (club (time 50)).participants Night.awards).reverse.intersperse late

end Night

theorem night_cancelled :
    ∃ debits, planReversal Night.shuffled .one = .ok debits ∧
      debits.Perm (Night.awards.map Award.debit) ∧ totalPoints? debits = some (-30) := by
  have hplan : planAwards (Night.club (Night.time 50)).participants .one = .ok Night.awards := by
    decide +kernel
  have hmixed : Night.shuffled.Perm
      (place (Night.club (Night.time 50)).participants Night.awards ++ [Night.late]) := by
    decide +kernel
  obtain ⟨debits, hreversal, -, hperm, htotal⟩ :=
    reversal_cancels_plan hplan (by decide +kernel) hmixed
  exact ⟨debits, hreversal, hperm, htotal 30 (by decide +kernel)⟩

end CardClub
