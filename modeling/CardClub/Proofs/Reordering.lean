import CardClub.Proofs.Schema

/-!
# Crediting in another order

Crediting adds up, so the order of the deltas shows only in the order of the rankings, as long as no
total leaves the range of points on the way. None does where the deltas of each membership are all
gains or all losses, because then every total on the way lies between the first and the last one.
-/

namespace CardClub

variable {m : MembershipId} {d : MembershipId × Int} {deltas deltas' : List (MembershipId × Int)}
  {rankings rankings' r r' : List Ranking}

/-- The deltas of each membership are all gains or all losses. -/
def Steady (deltas : List (MembershipId × Int)) : Prop :=
  ∀ m, (∀ d ∈ deltas, d.1 = m → 0 ≤ d.2) ∨ ∀ d ∈ deltas, d.1 = m → d.2 ≤ 0

theorem owed_nonneg (h : ∀ d ∈ deltas, d.1 = m → 0 ≤ d.2) : 0 ≤ owed deltas m := by
  induction deltas with
  | nil => exact Int.le_refl 0
  | cons d deltas ih =>
      obtain ⟨hd, hrest⟩ := List.forall_mem_cons.mp h
      rw [owed_cons]
      split
      · next hm => exact Int.add_nonneg (hd hm) (ih hrest)
      · rw [Int.zero_add]
        exact ih hrest

theorem owed_nonpos (h : ∀ d ∈ deltas, d.1 = m → d.2 ≤ 0) : owed deltas m ≤ 0 := by
  have hneg : 0 ≤ owed (negated deltas) m := by
    apply owed_nonneg
    intro d hd hm
    obtain ⟨x, hx, rfl⟩ := List.mem_map.mp hd
    exact Int.neg_nonneg_of_nonpos (h x hx hm)
  rw [owed_negated] at hneg
  omega

theorem netDeltas_nonneg {plan : List Award} (h : netDeltas plan = .ok deltas)
    (hplan : ∀ a ∈ plan, 0 ≤ a.points) : ∀ d ∈ deltas, 0 ≤ d.2 := by
  intro d hd
  rw [← owed_of_netDeltas h hd]
  apply owed_nonneg
  intro x hx _
  obtain ⟨a, ha, rfl⟩ := List.mem_map.mp hx
  exact hplan a ha

theorem netDeltas_nonpos {plan : List Award} (h : netDeltas plan = .ok deltas)
    (hplan : ∀ a ∈ plan, a.points ≤ 0) : ∀ d ∈ deltas, d.2 ≤ 0 := by
  intro d hd
  rw [← owed_of_netDeltas h hd]
  apply owed_nonpos
  intro x hx _
  obtain ⟨a, ha, rfl⟩ := List.mem_map.mp hx
  exact hplan a ha

namespace Steady

theorem of_nodup (h : (deltas.map (·.1)).Nodup) : Steady deltas := by
  intro m
  have howed : ∀ d ∈ deltas, d.1 = m → owed deltas m = d.2 := by
    rintro d hd rfl
    exact owed_of_mem h hd
  rcases Int.le_total 0 (owed deltas m) with hle | hle
  · exact .inl fun d hd hm => howed d hd hm ▸ hle
  · exact .inr fun d hd hm => howed d hd hm ▸ hle

theorem of_gains (h : ∀ d ∈ deltas, 0 ≤ d.2) : Steady deltas := fun _ => .inl fun d hd _ => h d hd

theorem of_losses (h : ∀ d ∈ deltas, d.2 ≤ 0) : Steady deltas := fun _ => .inr fun d hd _ => h d hd

theorem mono (h : Steady deltas) (hsub : deltas' ⊆ deltas) : Steady deltas' := by
  intro m
  rcases h m with hm | hm
  · exact .inl fun d hd => hm d (hsub hd)
  · exact .inr fun d hd => hm d (hsub hd)

/-- After the first delta a total lies between the total before it and the last one. -/
theorem fits_head (h : Steady (d :: deltas)) {points : Int} (hfirst : fitsPoints points = true)
    (hlast : fitsPoints (points + owed (d :: deltas) d.1) = true) :
    fitsPoints (points + d.2) = true := by
  rw [owed_cons, if_pos rfl] at hlast
  rw [fitsPoints_iff] at hfirst hlast ⊢
  rcases h d.1 with hgains | hlosses
  · obtain ⟨hd, hrest⟩ := List.forall_mem_cons.mp hgains
    have hle := hd rfl
    have hle' := owed_nonneg hrest
    omega
  · obtain ⟨hd, hrest⟩ := List.forall_mem_cons.mp hlosses
    have hle := hd rfl
    have hle' := owed_nonpos hrest
    omega

end Steady

theorem creditAll_append_ok :
    (deltas ++ deltas').foldlM Statement.creditRanking rankings = .ok r ↔
      ∃ between, deltas.foldlM Statement.creditRanking rankings = .ok between ∧
        deltas'.foldlM Statement.creditRanking between = .ok r := by
  rw [List.foldlM_append]
  cases deltas.foldlM Statement.creditRanking rankings with
  | error e => simp [bind, Except.bind]
  | ok between => simp [bind, Except.bind]

/-- Steady deltas can be credited if the last totals are in range. -/
theorem creditAll_ok_iff (hsteady : Steady deltas)
    (hrange : ∀ m, fitsPoints (pointsIn rankings m) = true) :
    (∃ rankings', deltas.foldlM Statement.creditRanking rankings = .ok rankings') ↔
      ∀ m, fitsPoints (pointsIn rankings m + owed deltas m) = true := by
  induction deltas generalizing rankings with
  | nil =>
      simp only [owed_nil, Int.add_zero, hrange, implies_true, iff_true]
      exact ⟨rankings, rfl⟩
  | cons d deltas ih =>
      have htail : Steady deltas := hsteady.mono (List.subset_cons_self _ _)
      have hpoints (m : MembershipId) : pointsIn (credited rankings d) m + owed deltas m =
          pointsIn rankings m + owed (d :: deltas) m := by
        rw [pointsIn_credited, owed_cons, Int.add_assoc]
      have hnext (hd : fitsPoints (pointsIn rankings d.1 + d.2) = true) (m : MembershipId) :
          fitsPoints (pointsIn (credited rankings d) m) = true := by
        rw [pointsIn_credited]
        split
        · next hm => exact hm ▸ hd
        · exact (Int.add_zero _).symm ▸ hrange m
      constructor
      · rintro ⟨rankings', h⟩ m
        obtain ⟨hd, hrest⟩ := creditAll_cons_ok.mp h
        rw [← hpoints]
        exact (ih htail (hnext hd)).mp ⟨rankings', hrest⟩ m
      · intro hlast
        have hd := hsteady.fits_head (hrange d.1) (hlast d.1)
        obtain ⟨rankings', hrest⟩ :=
          (ih htail (hnext hd)).mpr fun m => (hpoints m).symm ▸ hlast m
        exact ⟨rankings', creditAll_cons_ok.mpr ⟨hd, hrest⟩⟩

/-! ## Rankings in another order -/

theorem mem_iff_ranked (hids : (rankings.map (·.membershipId)).Nodup) {x : Ranking} :
    x ∈ rankings ↔ (x.membershipId, x.attendance) ∈ ranked rankings ∧
      pointsIn rankings x.membershipId = x.points := by
  have hpoints {y : Ranking} (hy : y ∈ rankings) :
      pointsIn rankings y.membershipId = y.points := by
    rw [pointsIn, find?_key hids hy]
    rfl
  constructor
  · exact fun hx => ⟨List.mem_map_of_mem hx, hpoints hx⟩
  · rintro ⟨hrow, heq⟩
    obtain ⟨y, hy, hrow⟩ := List.mem_map.mp hrow
    obtain ⟨hid, hattendance⟩ := Prod.mk.inj hrow
    have hyx : y = x := by
      rw [← hid, hpoints hy] at heq
      cases x; cases y; simp_all
    exact hyx ▸ hy

theorem rankings_perm (hids : (rankings.map (·.membershipId)).Nodup)
    (hids' : (rankings'.map (·.membershipId)).Nodup)
    (hranked : ∀ row, row ∈ ranked rankings ↔ row ∈ ranked rankings')
    (hpoints : ∀ m, pointsIn rankings m = pointsIn rankings' m) : rankings.Perm rankings' := by
  apply (List.perm_ext_iff_of_nodup (List.Nodup.of_map _ hids) (List.Nodup.of_map _ hids')).mpr
  intro x
  rw [mem_iff_ranked hids, mem_iff_ranked hids', hranked, hpoints]

theorem pointsIn_perm (hids : (rankings.map (·.membershipId)).Nodup)
    (hperm : rankings.Perm rankings') (m : MembershipId) :
    pointsIn rankings m = pointsIn rankings' m := by
  by_cases hm : m ∈ rankings.map (·.membershipId)
  · obtain ⟨x, hx, rfl⟩ := List.mem_map.mp hm
    have hids' := (hperm.map (·.membershipId)).nodup_iff.mp hids
    rw [((mem_iff_ranked hids).mp hx).2, ((mem_iff_ranked hids').mp (hperm.mem_iff.mp hx)).2]
  · have hm' : m ∉ rankings'.map (·.membershipId) :=
      fun h => hm ((hperm.map _).mem_iff.mpr h)
    rw [pointsIn_eq_zero hm, pointsIn_eq_zero hm']

theorem mem_ranked_creditAll (h : deltas.foldlM Statement.creditRanking rankings = .ok rankings')
    {row : MembershipId × Nat} :
    row ∈ ranked rankings' ↔ row ∈ ranked rankings ∨
      row.2 = 0 ∧ row.1 ∈ deltas.map (·.1) ∧ row.1 ∉ rankings.map (·.membershipId) := by
  obtain ⟨fresh, -, hfresh, hrows⟩ := creditAll_ranked h
  rw [hrows, List.mem_append, ← hfresh, List.mem_map]
  refine or_congr_right ⟨?_, fun ⟨hzero, hmem⟩ => ⟨row.1, hmem, hzero ▸ rfl⟩⟩
  rintro ⟨n, hn, rfl⟩
  exact ⟨rfl, hn⟩

/-- Steady deltas that can be credited can be credited in any order, to the same rankings in any
order. -/
theorem creditAll_perm (hsteady : Steady deltas) (hids : (rankings.map (·.membershipId)).Nodup)
    (hrange : ∀ r ∈ rankings, fitsPoints r.points = true) (hdeltas : deltas.Perm deltas')
    (hrankings : rankings.Perm rankings')
    (h : deltas.foldlM Statement.creditRanking rankings = .ok r) :
    ∃ r', deltas'.foldlM Statement.creditRanking rankings' = .ok r' ∧ r'.Perm r := by
  have hpoints := pointsIn_perm hids hrankings
  have hids' := (hrankings.map (·.membershipId)).nodup_iff.mp hids
  obtain ⟨r', h'⟩ : ∃ r', deltas'.foldlM Statement.creditRanking rankings' = .ok r' := by
    have hlast := (creditAll_ok_iff hsteady (pointsIn_fits hrange)).mp ⟨r, h⟩
    have hrange' (m : MembershipId) : fitsPoints (pointsIn rankings' m) = true :=
      hpoints m ▸ pointsIn_fits hrange m
    apply (creditAll_ok_iff (hsteady.mono hdeltas.symm.subset) hrange').mpr
    intro m
    rw [← hpoints, ← owed_perm hdeltas]
    exact hlast m
  refine ⟨r', h', rankings_perm (creditAll_nodup h' hids') (creditAll_nodup h hids) ?_ ?_⟩
  · intro row
    rw [mem_ranked_creditAll h, mem_ranked_creditAll h', (hdeltas.map _).mem_iff,
      (hrankings.map (·.membershipId)).mem_iff, ranked, ranked, (hrankings.map _).mem_iff]
  · intro m
    rw [creditAll_points h, creditAll_points h', hpoints, owed_perm hdeltas]

theorem Club.Consistent.creditAll_perm {c : Club} (hc : c.Consistent) (hsteady : Steady deltas)
    (hdeltas : deltas.Perm deltas') (hrankings : c.rankings.Perm rankings')
    (h : deltas.foldlM Statement.creditRanking c.rankings = .ok r) :
    ∃ r', deltas'.foldlM Statement.creditRanking rankings' = .ok r' ∧ r'.Perm r :=
  CardClub.creditAll_perm hsteady hc.ranking_ids
    (fun x hx => (hc.rankings_admissible x hx).points) hdeltas hrankings h

/-! ## Tables in another order -/

/-- The same tables, with the rankings in any order. -/
structure Club.Alike (c c' : Club) : Prop where
  others : c' = { c with rankings := c'.rankings }
  rankings : c'.rankings.Perm c.rankings

namespace Club.Alike

variable {c c' c₁ : Club}

theorem refl (c : Club) : c.Alike c := ⟨rfl, .refl _⟩

theorem trans (h : c.Alike c₁) (h' : c₁.Alike c') : c.Alike c' := by
  refine ⟨?_, h'.rankings.trans h.rankings⟩
  rw [h'.others, h.others]

theorem of_perm (h : r'.Perm r) : { c with rankings := r }.Alike { c with rankings := r' } :=
  ⟨rfl, h⟩

theorem consistent (h : c.Alike c') (hc : c.Consistent) : c'.Consistent := by
  have hperm := h.rankings
  rw [h.others] at hperm ⊢
  exact { hc with
    ranking_ids := (hperm.map (·.membershipId)).nodup_iff.mpr hc.ranking_ids
    ranking_membership := fun r hr => hc.ranking_membership r (hperm.mem_iff.mp hr)
    rankings_admissible := fun r hr => hc.rankings_admissible r (hperm.mem_iff.mp hr) }

end Club.Alike

end CardClub
