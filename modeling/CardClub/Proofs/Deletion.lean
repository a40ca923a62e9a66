import CardClub.Proofs.Rounding
import CardClub.Proofs.Settled
import Mathlib.Data.List.Forall2

/-!
# Reversing a plan after deletions

A reversal counts the field anew. If the participants that are left are the first ones of the plan,
their placements still fit the field, and each of them is debited the award of the placement in the
smaller field, which may be less than what was credited. If anyone before the last one left is
missing, some placement is beyond the field and there is no reversal.
-/

namespace CardClub

/-! ## What is left of a numbered list -/

section

variable {α β ε : Type} {l s : List α} {f : α → Nat} {first : Nat}

theorem exists_number_ge (hl : l.map f = List.range' first l.length) (hs : s.Sublist l)
    (hne : s ≠ []) : ∃ a ∈ s, first + s.length ≤ f a + 1 := by
  induction hs generalizing first with
  | slnil => exact absurd rfl hne
  | cons a _ ih =>
      rw [List.map_cons, List.length_cons, List.range'_succ] at hl
      obtain ⟨-, hl⟩ := List.cons.inj hl
      obtain ⟨b, hb, hle⟩ := ih hl hne
      exact ⟨b, hb, by omega⟩
  | @cons_cons s l a _ ih =>
      rw [List.map_cons, List.length_cons, List.range'_succ] at hl
      obtain ⟨hfirst, hl⟩ := List.cons.inj hl
      by_cases hempty : s = []
      · exact ⟨a, List.mem_cons_self, by simp [hempty, hfirst]⟩
      · obtain ⟨b, hb, hle⟩ := ih hl hempty
        rw [List.length_cons]
        exact ⟨b, List.mem_cons_of_mem a hb, by omega⟩

/-- What is left of a numbered list is numbered within its length only if it is the beginning. -/
theorem prefix_of_numbers_lt (hl : l.map f = List.range' first l.length) (hs : s.Sublist l)
    (hlt : ∀ a ∈ s, f a < first + s.length) : s <+: l := by
  induction hs generalizing first with
  | slnil => exact List.prefix_rfl
  | @cons s l a hs _ =>
      rw [List.map_cons, List.length_cons, List.range'_succ] at hl
      obtain ⟨-, hl⟩ := List.cons.inj hl
      by_cases hempty : s = []
      · exact hempty ▸ List.nil_prefix
      · obtain ⟨b, hb, hge⟩ := exists_number_ge hl hs hempty
        have hb := hlt b hb
        omega
  | @cons_cons s l a _ ih =>
      rw [List.map_cons, List.length_cons, List.range'_succ] at hl
      obtain ⟨-, hl⟩ := List.cons.inj hl
      refine List.cons_prefix_cons.mpr ⟨rfl, ih hl fun b hb => ?_⟩
      have hb := hlt b (List.mem_cons_of_mem a hb)
      rw [List.length_cons] at hb
      omega

theorem number_lt_of_prefix (hl : l.map f = List.range' first l.length) (hs : s <+: l) :
    ∀ a ∈ s, f a < first + s.length := by
  intro a ha
  obtain ⟨t, rfl⟩ := hs
  rw [List.map_append, List.length_append, ← List.range'_append_1] at hl
  obtain ⟨hnumbers, -⟩ := List.append_inj hl (by simp)
  have hmem : f a ∈ List.range' first s.length := hnumbers ▸ List.mem_map_of_mem ha
  exact (List.mem_range'_1.mp hmem).2

theorem mapM_forall₂ {r : α → β → Prop} {g : α → Except ε β}
    (h : ∀ a ∈ l, ∃ b, g a = .ok b ∧ r a b) : ∃ bs, l.mapM g = .ok bs ∧ List.Forall₂ r l bs := by
  induction l with
  | nil => exact ⟨[], rfl, .nil⟩
  | cons a l ih =>
      obtain ⟨⟨b, hb, hab⟩, hrest⟩ := List.forall_mem_cons.mp h
      obtain ⟨bs, hbs, hall⟩ := ih hrest
      exact ⟨b :: bs, mapM_cons_ok.mpr ⟨b, bs, hb, hbs, rfl⟩, .cons hab hall⟩

/-- The error of a list is the error of one of its members. -/
theorem mapM_error {g : α → Except ε β} (h : ∃ a ∈ l, ∃ e, g a = .error e) :
    ∃ a ∈ l, ∃ e, g a = .error e ∧ l.mapM g = .error e := by
  induction l with
  | nil => simp at h
  | cons a l ih =>
      rw [List.mapM_cons]
      cases ha : g a with
      | error e => exact ⟨a, List.mem_cons_self, e, ha, rfl⟩
      | ok b =>
          obtain ⟨x, hx, e, hxe⟩ := h
          rcases List.mem_cons.mp hx with rfl | hx
          · rw [ha] at hxe
            cases hxe
          · obtain ⟨y, hy, e', hye, hrest⟩ := ih ⟨x, hx, e, hxe⟩
            refine ⟨y, List.mem_cons_of_mem a hy, e', hye, ?_⟩
            rw [hrest]
            rfl

end

/-! ## Participants with their awards -/

variable {l : List Participant} {awards : List Award} {multiplier : Decimal}
  {kept : List (Participant × Award)} {x : Participant × Award} {size : Nat}

/-- The participants of a plan with their placements written, each with its award. -/
def planned (l : List Participant) (awards : List Award) : List (Participant × Award) :=
  (place l awards).zip awards

theorem map_award_planned (h : awards.length = l.length) :
    (planned l awards).map (·.2) = awards := by
  apply List.map_snd_zip
  simp [place, h]

theorem length_planned (h : awards.length = l.length) : (planned l awards).length = l.length := by
  simp [planned, place, h]

theorem length_of_planAwards (h : planAwards l multiplier = .ok awards) :
    awards.length = l.length := by
  obtain ⟨-, -, hplaces, -⟩ := planAwards_ok.mp h
  simpa using congrArg List.length hplaces

theorem numbers_planned (h : planAwards l multiplier = .ok awards) :
    (planned l awards).map (·.2.placement) = List.range' 1 (planned l awards).length := by
  have hlength := length_of_planAwards h
  obtain ⟨-, -, hplaces, -⟩ := planAwards_ok.mp h
  have hmap : (planned l awards).map (·.2.placement) =
      ((planned l awards).map (·.2)).map (·.placement) := by
    rw [List.map_map]
    rfl
  rw [hmap, map_award_planned hlength, length_planned hlength, hplaces]

theorem seat_of_mem_planned (h : planAwards l multiplier = .ok awards)
    (hx : x ∈ planned l awards) :
    (x.1.id, x.1.membershipId) = (x.2.participantId, x.2.membershipId) ∧
      x.1.placement = x.2.placement := by
  obtain ⟨-, hseats, -⟩ := planAwards_ok.mp h
  obtain ⟨i, hi, rfl⟩ := List.mem_iff_getElem.mp hx
  have hi : i < l.length := length_planned (length_of_planAwards h) ▸ hi
  have hseat := List.getElem_of_eq hseats (by simpa [Award.seats, length_of_planAwards h] using hi)
  simp only [Award.seats, Participant.seats, List.getElem_map] at hseat
  simp only [planned, place, List.getElem_zip, List.getElem_zipWith]
  exact ⟨hseat.symm, trivial⟩

theorem award_of_mem_planned (h : planAwards l multiplier = .ok awards)
    (hx : x ∈ planned l awards) :
    0 < x.2.placement ∧ awardPoints l.length x.2.placement multiplier = .ok x.2.points := by
  obtain ⟨-, -, -, hpoints⟩ := planAwards_ok.mp h
  have hmem : x.2 ∈ awards :=
    map_award_planned (length_of_planAwards h) ▸ List.mem_map_of_mem (f := (·.2)) hx
  have haward := hpoints _ hmem
  exact ⟨Nat.pos_of_ne_zero (awardPoints_ok.mp haward).1, haward⟩

/-! ## Debits in a smaller field -/

/-- A debit takes back what the placement of an award earns in a field of some size. -/
structure Debits (size : Nat) (multiplier : Decimal) (a debit : Award) : Prop where
  seat : (debit.participantId, debit.membershipId) = (a.participantId, a.membershipId)
  placement : debit.placement = a.placement
  points : awardPoints size a.placement multiplier = .ok (-debit.points)
  le : -debit.points ≤ a.points

theorem Debits.eq_debit_iff {a debit : Award} (h : Debits size multiplier a debit) :
    debit = a.debit ↔ awardPoints size a.placement multiplier = .ok a.points := by
  constructor
  · rintro rfl
    exact h.points.trans (congrArg _ (Int.neg_neg a.points))
  · intro hpoints
    have hequal : -debit.points = a.points := Except.ok.inj (h.points.symm.trans hpoints)
    obtain ⟨hparticipant, hmembership⟩ := Prod.mk.inj h.seat
    obtain ⟨participantId, membershipId, placement, points⟩ := debit
    simp only at hparticipant hmembership hequal
    simp only [Award.debit, Award.mk.injEq]
    exact ⟨hparticipant, hmembership, h.placement, by omega⟩

theorem eq_debits_iff {debits : List Award}
    (h : List.Forall₂ (fun x d => Debits size multiplier x.2 d) kept debits) :
    debits = kept.map (·.2.debit) ↔
      ∀ x ∈ kept, awardPoints size x.2.placement multiplier = .ok x.2.points := by
  induction h with
  | nil => simp
  | cons hx _ ih =>
      rw [List.map_cons, List.cons_eq_cons, hx.eq_debit_iff, ih, List.forall_mem_cons]

theorem debitFor_of_le (h : planAwards l multiplier = .ok awards) (hx : x ∈ planned l awards)
    (hsize : size ≤ l.length) (hle : x.1.placement ≤ size) :
    ∃ d, debitFor size multiplier x.1 = .ok d ∧ Debits size multiplier x.2 d := by
  obtain ⟨hseat, hplacement⟩ := seat_of_mem_planned h hx
  obtain ⟨hpos, haward⟩ := award_of_mem_planned h hx
  obtain ⟨n, hn, hless⟩ := awardPoints_mono (Nat.ne_of_gt hpos) (hplacement ▸ hle)
    (Nat.sub_le_sub_right hsize x.2.placement) haward
  have hn' : awardPoints size x.2.placement multiplier = .ok (- -n) := by rw [Int.neg_neg, hn]
  exact ⟨_, debitFor_of_points (hplacement ▸ hn), hseat, hplacement, hn', by simpa using hless⟩

theorem debitFor_of_gt {p : Participant} (h : size < p.placement) :
    debitFor size multiplier p = .error (.invalidPlacement p.placement size) := by
  simp [debitFor, awardPoints, h, Except.bind]

theorem length_kept_le (h : planAwards l multiplier = .ok awards)
    (hkept : kept.Sublist (planned l awards)) : kept.length ≤ l.length := by
  rw [← length_planned (length_of_planAwards h)]
  exact hkept.length_le

theorem planReversal_kept (h : planAwards l multiplier = .ok awards)
    (hkept : kept.Sublist (planned l awards)) :
    planReversal (kept.map (·.1)) multiplier =
      kept.mapM fun x => debitFor kept.length multiplier x.1 := by
  have hpos : ∀ p ∈ kept.map (·.1), 0 < p.placement := by
    intro p hp
    obtain ⟨x, hx, rfl⟩ := List.mem_map.mp hp
    have hx := hkept.subset hx
    rw [(seat_of_mem_planned h hx).2]
    exact (award_of_mem_planned h hx).1
  have hcount : kept.length < countLimit :=
    Nat.lt_of_le_of_lt (length_kept_le h hkept) (planAwards_ok.mp h).1
  simp only [planReversal, placed_of_pos hpos, List.length_map, hcount, if_true]
  rw [List.mapM_map]
  rfl

/-! ## Deletions -/

/-- If a reversal of the participants that are left gives debits, these are their credits. -/
def DebitsCredited (multiplier : Decimal) (kept : List (Participant × Award)) : Prop :=
  ∀ debits, planReversal (kept.map (·.1)) multiplier = .ok debits →
    debits = kept.map (·.2.debit)

theorem prefix_iff_placements_le (h : planAwards l multiplier = .ok awards)
    (hkept : kept.Sublist (planned l awards)) :
    kept <+: planned l awards ↔ ∀ x ∈ kept, x.1.placement ≤ kept.length := by
  have hplacement : ∀ x ∈ kept, x.1.placement = x.2.placement :=
    fun x hx => (seat_of_mem_planned h (hkept.subset hx)).2
  constructor
  · intro hbegin x hx
    have hlt := number_lt_of_prefix (numbers_planned h) hbegin x hx
    have hx := hplacement x hx
    omega
  · intro hle
    refine prefix_of_numbers_lt (numbers_planned h) hkept fun x hx => ?_
    have hx' := hplacement x hx
    have hx := hle x hx
    omega

theorem planReversal_error (h : planAwards l multiplier = .ok awards)
    (hkept : kept.Sublist (planned l awards)) (hnot : ¬ kept <+: planned l awards) :
    ∃ x ∈ kept, kept.length < x.1.placement ∧ planReversal (kept.map (·.1)) multiplier =
      .error (.invalidPlacement x.1.placement kept.length) := by
  obtain ⟨y, hy, hbeyond⟩ : ∃ y ∈ kept, ¬ y.1.placement ≤ kept.length := by
    simpa using mt (prefix_iff_placements_le h hkept).mpr hnot
  have hfails : ∃ x ∈ kept, ∃ e, debitFor kept.length multiplier x.1 = .error e :=
    ⟨y, hy, _, debitFor_of_gt (Nat.lt_of_not_le hbeyond)⟩
  obtain ⟨x, hx, e, hxe, hmap⟩ := mapM_error hfails
  -- whose placement fits has a debit, so the error is that of a placement beyond the field
  have hgt : kept.length < x.1.placement := by
    apply Nat.lt_of_not_le
    intro hle
    obtain ⟨d, hd, -⟩ := debitFor_of_le h (hkept.subset hx) (length_kept_le h hkept) hle
    rw [hd] at hxe
    cases hxe
  rw [debitFor_of_gt hgt] at hxe
  obtain rfl := Except.error.inj hxe
  exact ⟨x, hx, hgt, (planReversal_kept h hkept).trans hmap⟩

theorem planReversal_debits (h : planAwards l multiplier = .ok awards)
    (hkept : kept.Sublist (planned l awards)) (hbegin : kept <+: planned l awards) :
    ∃ debits, planReversal (kept.map (·.1)) multiplier = .ok debits ∧
      List.Forall₂ (fun x d => Debits kept.length multiplier x.2 d) kept debits := by
  have hle := (prefix_iff_placements_le h hkept).mp hbegin
  obtain ⟨debits, hmap, hall⟩ := mapM_forall₂ fun x hx =>
    debitFor_of_le h (hkept.subset hx) (length_kept_le h hkept) (hle x hx)
  exact ⟨debits, (planReversal_kept h hkept).trans hmap, hall⟩

/-- After deletions from a field, its plan is reversed only if the first of the field are left. Each
is debited what its placement earns in the field of those left, never more than it was credited; the
debits are the credits exactly if the size of the field makes no difference to the points. -/
theorem reversal_after_deletion (hplan : planAwards l multiplier = .ok awards)
    (hkept : kept.Sublist (planned l awards)) :
    (¬ kept <+: planned l awards → ∃ x ∈ kept, kept.length < x.1.placement ∧
      planReversal (kept.map (·.1)) multiplier =
        .error (.invalidPlacement x.1.placement kept.length)) ∧
    (kept <+: planned l awards → ∃ debits, planReversal (kept.map (·.1)) multiplier = .ok debits ∧
      List.Forall₂ (fun x d => Debits kept.length multiplier x.2 d) kept debits) ∧
    (DebitsCredited multiplier kept ↔ (kept <+: planned l awards →
      ∀ x ∈ kept, awardPoints kept.length x.2.placement multiplier = .ok x.2.points)) := by
  refine ⟨planReversal_error hplan hkept, planReversal_debits hplan hkept, ?_, ?_⟩
  · intro hcredited hbegin
    obtain ⟨debits, hok, hall⟩ := planReversal_debits hplan hkept hbegin
    exact (eq_debits_iff hall).mp (hcredited debits hok)
  · intro hsame debits hdebits
    by_cases hbegin : kept <+: planned l awards
    · obtain ⟨debits', hok, hall⟩ := planReversal_debits hplan hkept hbegin
      obtain rfl : debits' = debits := Except.ok.inj (hok.symm.trans hdebits)
      exact (eq_debits_iff hall).mpr (hsame hbegin)
    · obtain ⟨x, -, -, hfail⟩ := planReversal_error hplan hkept hbegin
      rw [hfail] at hdebits
      cases hdebits

/-- With the last of two players deleted, the winner is debited ten points of twenty. -/
theorem night_winner_keeps_points :
    let field := (Night.club (Night.time 50)).participants
    let kept := (planned field Night.awards).take 1
    planAwards field .one = .ok Night.awards ∧ kept.Sublist (planned field Night.awards) ∧
      ¬ DebitsCredited .one kept := by
  intro field kept
  have hplan : planAwards field .one = .ok Night.awards := by decide +kernel
  have hkept : kept.Sublist (planned field Night.awards) := List.take_sublist 1 _
  refine ⟨hplan, hkept, fun hcredited => ?_⟩
  obtain ⟨-, -, hiff⟩ := reversal_after_deletion hplan hkept
  have hsame : ∀ x ∈ kept, awardPoints kept.length x.2.placement .one = .ok x.2.points :=
    hiff.mp hcredited (List.take_prefix 1 _)
  exact absurd hsame (by decide +kernel)

end CardClub
