import CardClub.Proofs.Netting
import CardClub.Proofs.Statement

/-!
# Crediting points

Crediting deltas adds to the points of each membership what it is owed, and appends rows without
attendance for those who had none. A list of rankings is determined by its rows apart from the
points, and by the points of each membership.
-/

namespace CardClub

/-- The points that some rankings have for a membership; 0 without a ranking. -/
def pointsIn (rankings : List Ranking) (m : MembershipId) : Int :=
  ((rankings.find? fun r => decide (r.membershipId = m)).map (·.points)).getD 0

/-- The rows of some rankings apart from the points. -/
def ranked (rankings : List Ranking) : List (MembershipId × Nat) :=
  rankings.map fun r => (r.membershipId, r.attendance)

variable {m : MembershipId} {points : Int} {deltas : List (MembershipId × Int)}
    {d : MembershipId × Int}
  {rankings rankings' : List Ranking}

@[simp] theorem pointsIn_nil : pointsIn [] m = 0 := rfl

theorem pointsIn_cons {r : Ranking} :
    pointsIn (r :: rankings) m = if r.membershipId = m then r.points else pointsIn rankings m := by
  unfold pointsIn
  rw [List.find?_cons]
  by_cases h : r.membershipId = m <;> simp [h]

theorem pointsIn_eq_zero (h : m ∉ rankings.map (·.membershipId)) : pointsIn rankings m = 0 := by
  rw [pointsIn, find?_key_eq_none.mpr h]
  rfl

theorem pointsIn_concat (h : d.1 ∉ rankings.map (·.membershipId)) :
    pointsIn (rankings ++ [⟨d.1, d.2, 0⟩]) m =
      pointsIn rankings m + if d.1 = m then d.2 else 0 := by
  induction rankings with
  | nil => simp [pointsIn_cons]
  | cons r rankings ih =>
      rw [List.map_cons, List.mem_cons, not_or] at h
      rw [List.cons_append, pointsIn_cons, pointsIn_cons, ih h.2]
      by_cases hm : r.membershipId = m
      · have hne : d.1 ≠ m := fun heq => h.1 (heq.trans hm.symm)
        simp [hm, hne]
      · simp [hm]

theorem pointsIn_replaceWhere {k : MembershipId} :
    pointsIn (replaceWhere (fun r => decide (r.membershipId = k))
        (fun r => { r with points }) rankings) m =
      if k = m ∧ m ∈ rankings.map (·.membershipId) then points else pointsIn rankings m := by
  induction rankings with
  | nil => simp [replaceWhere]
  | cons r rankings ih =>
      have hid :
          (if decide (r.membershipId = k) = true then { r with points } else r).membershipId =
          r.membershipId := by split <;> rfl
      rw [replaceWhere, List.map_cons, pointsIn_cons, hid, ← replaceWhere, ih, pointsIn_cons]
      simp only [List.map_cons, List.mem_cons]
      by_cases hm : r.membershipId = m
      · by_cases hk : k = m
        · simp [hm, hk]
        · have hkey : ¬ m = k := fun heq => hk heq.symm
          simp [hm, hk, hkey]
      · have hmem : ¬ m = r.membershipId := fun heq => hm heq.symm
        simp [hm, hmem]

/-- Some rankings after a delta. -/
def credited (rankings : List Ranking) (d : MembershipId × Int) : List Ranking :=
  if d.1 ∈ rankings.map (·.membershipId) then
    replaceWhere (fun r => decide (r.membershipId = d.1))
      (fun r => { r with points := pointsIn rankings d.1 + d.2 }) rankings
  else rankings ++ [⟨d.1, d.2, 0⟩]

theorem creditRanking_ok :
    Statement.creditRanking rankings d = .ok rankings' ↔
      fitsPoints (pointsIn rankings d.1 + d.2) = true ∧ rankings' = credited rankings d := by
  unfold Statement.creditRanking
  split
  · next hnone =>
    have hmem := find?_key_eq_none.mp hnone
    rw [pointsIn_eq_zero hmem, Int.zero_add, credited, if_neg hmem]
    split
    · next hfits => simp [hfits, eq_comm]
    · next hfits => simp [hfits]
  · next r hr =>
    have hmem : d.1 ∈ rankings.map (·.membershipId) := isSome_find?_key.mp (hr ▸ rfl)
    have hpoints : pointsIn rankings d.1 = r.points := by rw [pointsIn, hr]; rfl
    rw [credited, if_pos hmem, hpoints]
    by_cases hfits : fitsPoints (r.points + d.2) = true
    · simp [addPoints?, hfits, eq_comm]
    · simp [addPoints?, hfits]

theorem pointsIn_credited :
    pointsIn (credited rankings d) m = pointsIn rankings m + if d.1 = m then d.2 else 0 := by
  unfold credited
  split
  · next hmem =>
    rw [pointsIn_replaceWhere]
    by_cases hm : d.1 = m
    · subst hm
      rw [if_pos ⟨rfl, hmem⟩, if_pos rfl]
    · simp [hm]
  · next hmem => exact pointsIn_concat hmem

theorem ranked_credited :
    ranked (credited rankings d) =
      ranked rankings ++ if d.1 ∈ rankings.map (·.membershipId) then [] else [(d.1, 0)] := by
  unfold credited ranked
  split
  · rw [List.append_nil]
    exact map_replaceWhere fun _ _ _ => rfl
  · rw [List.map_append]
    rfl

theorem keys_eq_ranked : rankings.map (·.membershipId) = (ranked rankings).map (·.1) := by
  simp [ranked, Function.comp_def]

theorem mem_keys_credited :
    m ∈ (credited rankings d).map (·.membershipId) ↔
    m ∈ rankings.map (·.membershipId) ∨ m = d.1 := by
  rw [keys_eq_ranked, ranked_credited, List.map_append, List.mem_append, ← keys_eq_ranked]
  split
  · next hmem =>
    simp only [List.map_nil, List.not_mem_nil, or_false]
    exact ⟨.inl, fun h => h.elim id fun heq => heq ▸ hmem⟩
  · simp

/-! ## Several deltas -/

theorem creditAll_cons_ok :
    (d :: deltas).foldlM Statement.creditRanking rankings = .ok rankings' ↔
      fitsPoints (pointsIn rankings d.1 + d.2) = true ∧
        deltas.foldlM Statement.creditRanking (credited rankings d) = .ok rankings' := by
  rw [List.foldlM_cons]
  cases h : Statement.creditRanking rankings d with
  | error e =>
      have hno : ¬ fitsPoints (pointsIn rankings d.1 + d.2) = true := fun hfits => by
        rw [creditRanking_ok.mpr ⟨hfits, rfl⟩] at h
        cases h
      simp [hno, bind, Except.bind]
  | ok next =>
      obtain ⟨hfits, rfl⟩ := creditRanking_ok.mp h
      simp [hfits, bind, Except.bind]

/-- Crediting adds to the points of each membership what it is owed. -/
theorem creditAll_points (h : deltas.foldlM Statement.creditRanking rankings = .ok rankings')
    (m : MembershipId) : pointsIn rankings' m = pointsIn rankings m + owed deltas m := by
  induction deltas generalizing rankings with
  | nil =>
      obtain rfl := Except.ok.inj h
      simp
  | cons d deltas ih =>
      obtain ⟨-, hrest⟩ := creditAll_cons_ok.mp h
      rw [ih hrest, pointsIn_credited, owed_cons, Int.add_assoc]

/-- Crediting adds a row without attendance for each membership that had none. -/
theorem creditAll_ranked (h : deltas.foldlM Statement.creditRanking rankings = .ok rankings') :
    ∃ fresh : List MembershipId, fresh.Nodup ∧
      (∀ m, m ∈ fresh ↔ m ∈ deltas.map (·.1) ∧ m ∉ rankings.map (·.membershipId)) ∧
      ranked rankings' = ranked rankings ++ fresh.map fun m => (m, 0) := by
  induction deltas generalizing rankings with
  | nil =>
      obtain rfl := Except.ok.inj h
      exact ⟨[], List.nodup_nil, by simp, by simp⟩
  | cons d deltas ih =>
      obtain ⟨-, hrest⟩ := creditAll_cons_ok.mp h
      obtain ⟨fresh, hnodup, hfresh, hranked⟩ := ih hrest
      simp only [mem_keys_credited, not_or] at hfresh
      by_cases hd : d.1 ∈ rankings.map (·.membershipId)
      · refine ⟨fresh, hnodup, fun m => ?_, ?_⟩
        · rw [hfresh, List.map_cons, List.mem_cons]
          constructor
          · exact fun ⟨hm, hkey, _⟩ => ⟨.inr hm, hkey⟩
          · rintro ⟨rfl | hm, hkey⟩
            · exact absurd hd hkey
            · exact ⟨hm, hkey, fun heq => hkey (heq ▸ hd)⟩
        · rw [hranked, ranked_credited, if_pos hd, List.append_nil]
      · have hnot : d.1 ∉ fresh := fun hmem => ((hfresh d.1).mp hmem).2.2 rfl
        refine ⟨d.1 :: fresh, List.nodup_cons.mpr ⟨hnot, hnodup⟩, fun m => ?_, ?_⟩
        · rw [List.mem_cons, hfresh, List.map_cons, List.mem_cons]
          by_cases hm : m = d.1
          · simp [hm, hd]
          · simp [hm]
        · rw [hranked, ranked_credited, if_neg hd, List.append_assoc]
          rfl

theorem mem_keys_creditAll
    (h : deltas.foldlM Statement.creditRanking rankings = .ok rankings') :
    m ∈ rankings'.map (·.membershipId) ↔
      m ∈ rankings.map (·.membershipId) ∨ m ∈ deltas.map (·.1) := by
  obtain ⟨fresh, -, hfresh, hrows⟩ := creditAll_ranked h
  rw [keys_eq_ranked, hrows, List.map_append, ← keys_eq_ranked, List.map_map, List.mem_append]
  simp only [Function.comp_def, List.map_id', hfresh]
  by_cases hm : m ∈ rankings.map (·.membershipId)
  · simp [hm]
  · simp [hm]

theorem creditAll_nodup (h : deltas.foldlM Statement.creditRanking rankings = .ok rankings')
    (hids : (rankings.map (·.membershipId)).Nodup) : (rankings'.map (·.membershipId)).Nodup := by
  obtain ⟨fresh, hnodup, hfresh, hrows⟩ := creditAll_ranked h
  have hkeys : rankings'.map (·.membershipId) = rankings.map (·.membershipId) ++ fresh := by
    rw [keys_eq_ranked, hrows, List.map_append, ← keys_eq_ranked, List.map_map]
    simp [Function.comp_def]
  rw [hkeys, List.nodup_append]
  refine ⟨hids, hnodup, ?_⟩
  rintro m hm n hn rfl
  exact ((hfresh m).mp hn).2 hm

theorem creditAll_fits (h : deltas.foldlM Statement.creditRanking rankings = .ok rankings')
    (hrange : ∀ r ∈ rankings, fitsPoints r.points = true) :
    ∀ r ∈ rankings', fitsPoints r.points = true := by
  induction deltas generalizing rankings with
  | nil =>
      obtain rfl := Except.ok.inj h
      exact hrange
  | cons d deltas ih =>
      obtain ⟨hfits, hrest⟩ := creditAll_cons_ok.mp h
      apply ih hrest
      intro r hr
      unfold credited at hr
      split at hr
      · exact forall_mem_replaceWhere hrange (fun _ _ _ => hfits) r hr
      · next hnone =>
        rw [pointsIn_eq_zero hnone, Int.zero_add] at hfits
        rcases List.mem_append.mp hr with hr | hr
        · exact hrange r hr
        · exact List.mem_singleton.mp hr ▸ hfits

theorem creditAll_attendance (h : deltas.foldlM Statement.creditRanking rankings = .ok rankings')
    {r : Ranking} (hr : r ∈ rankings') :
    r.attendance = 0 ∨ ∃ r' ∈ rankings, r'.attendance = r.attendance := by
  obtain ⟨fresh, -, -, hrows⟩ := creditAll_ranked h
  have hrow : (r.membershipId, r.attendance) ∈ ranked rankings' := List.mem_map_of_mem hr
  rw [hrows, List.mem_append] at hrow
  rcases hrow with hold | hnew
  · obtain ⟨r', hr', heq⟩ := List.mem_map.mp hold
    exact .inr ⟨r', hr', (Prod.mk.inj heq).2⟩
  · obtain ⟨m, -, heq⟩ := List.mem_map.mp hnew
    exact .inl (Prod.mk.inj heq).2.symm

theorem creditAll_succeeds (hkeys : (deltas.map (·.1)).Nodup)
    (hfits : ∀ d ∈ deltas, fitsPoints (pointsIn rankings d.1 + d.2) = true) :
    ∃ rankings', deltas.foldlM Statement.creditRanking rankings = .ok rankings' := by
  induction deltas generalizing rankings with
  | nil => exact ⟨rankings, rfl⟩
  | cons d deltas ih =>
      obtain ⟨hd, hkeys⟩ := List.nodup_cons.mp hkeys
      obtain ⟨hfit, hfits⟩ := List.forall_mem_cons.mp hfits
      have hrest : ∀ x ∈ deltas, fitsPoints (pointsIn (credited rankings d) x.1 + x.2) = true := by
        intro x hx
        have hne : d.1 ≠ x.1 := fun heq => hd (List.mem_map.mpr ⟨x, hx, heq.symm⟩)
        rw [pointsIn_credited, if_neg hne, Int.add_zero]
        exact hfits x hx
      obtain ⟨rankings', hrest⟩ := ih hkeys hrest
      exact ⟨rankings', creditAll_cons_ok.mpr ⟨hfit, hrest⟩⟩

/-- Rankings with the same rows and the same points of each membership are the same. -/
theorem rankings_ext (hkeys : (rankings.map (·.membershipId)).Nodup)
    (hranked : ranked rankings = ranked rankings')
    (hpoints : ∀ m ∈ rankings.map (·.membershipId), pointsIn rankings m = pointsIn rankings' m) :
    rankings = rankings' := by
  induction rankings generalizing rankings' with
  | nil => exact (List.map_eq_nil_iff.mp hranked.symm).symm
  | cons r rankings ih =>
      obtain ⟨hr, hkeys⟩ := List.nodup_cons.mp hkeys
      cases rankings' with
      | nil => simp [ranked] at hranked
      | cons r' rankings' =>
          obtain ⟨hrow, hranked⟩ := List.cons.inj hranked
          obtain ⟨hid, hattendance⟩ := Prod.mk.inj hrow
          obtain ⟨hhead, hpoints⟩ := List.forall_mem_cons.mp hpoints
          rw [pointsIn_cons, pointsIn_cons, if_pos rfl, if_pos hid.symm] at hhead
          have heq : r = r' := by
            cases r; cases r'; simp_all
          refine List.cons_eq_cons.mpr ⟨heq, ih hkeys hranked fun m hm => ?_⟩
          have hne : ¬ r.membershipId = m := fun h => hr (show r.membershipId ∈ _ from h ▸ hm)
          have hm' := hpoints m hm
          rwa [pointsIn_cons, pointsIn_cons, ← hid, if_neg hne, if_neg hne] at hm'

/-! ## Taking back and crediting again -/

theorem pointsIn_fits (h : ∀ r ∈ rankings, fitsPoints r.points = true) (m : MembershipId) :
    fitsPoints (pointsIn rankings m) = true := by
  unfold pointsIn
  cases hr : rankings.find? fun r => decide (r.membershipId = m) with
  | none => rfl
  | some r => exact h r (List.mem_of_find?_eq_some hr)

theorem pointsIn_append_zeros {fresh : List MembershipId} :
    pointsIn (rankings ++ fresh.map fun n => ⟨n, 0, 0⟩) m = pointsIn rankings m := by
  induction rankings with
  | nil =>
      induction fresh with
      | nil => rfl
      | cons n fresh ih =>
          rw [List.nil_append] at ih ⊢
          rw [List.map_cons, pointsIn_cons, ih]
          simp
  | cons r rankings ih => rw [List.cons_append, pointsIn_cons, pointsIn_cons, ih]

theorem ranked_of_existing (h : deltas.foldlM Statement.creditRanking rankings = .ok rankings')
    (hexist : ∀ m ∈ deltas.map (·.1), m ∈ rankings.map (·.membershipId)) :
    ranked rankings' = ranked rankings := by
  obtain ⟨fresh, -, hfresh, hranked⟩ := creditAll_ranked h
  have hnone : fresh = [] := by
    apply List.eq_nil_iff_forall_not_mem.mpr
    intro m hm
    obtain ⟨hkey, hnot⟩ := (hfresh m).mp hm
    exact hnot (hexist m hkey)
  rw [hranked, hnone, List.map_nil, List.append_nil]

theorem creditAll_undo (hrange : ∀ r ∈ rankings, fitsPoints r.points = true)
    (hkeys : (deltas.map (·.1)).Nodup)
    (h : deltas.foldlM Statement.creditRanking rankings = .ok rankings') :
    ∃ restored, (negated deltas).foldlM Statement.creditRanking rankings' = .ok restored ∧
      ranked restored = ranked rankings' ∧ ∀ m, pointsIn restored m = pointsIn rankings m := by
  have hfits : ∀ d ∈ negated deltas, fitsPoints (pointsIn rankings' d.1 + d.2) = true := by
    intro d hd
    obtain ⟨x, hx, rfl⟩ := List.mem_map.mp hd
    rw [creditAll_points h, owed_of_mem hkeys hx, Int.add_neg_cancel_right]
    exact pointsIn_fits hrange x.1
  obtain ⟨restored, hrestored⟩ := creditAll_succeeds (by rwa [keys_negated]) hfits
  refine ⟨restored, hrestored, ranked_of_existing hrestored fun m hm => ?_, fun m => ?_⟩
  · rw [keys_negated] at hm
    exact (mem_keys_creditAll h).mpr (.inr hm)
  · rw [creditAll_points hrestored, owed_negated, creditAll_points h, Int.add_neg_cancel_right]

theorem creditAll_redo {restored : List Ranking}
    (hrange : ∀ r ∈ rankings', fitsPoints r.points = true)
    (hids : (rankings'.map (·.membershipId)).Nodup) (hkeys : (deltas.map (·.1)).Nodup)
    (h : deltas.foldlM Statement.creditRanking rankings = .ok rankings')
    (hranked : ranked restored = ranked rankings')
    (hpoints : ∀ m, pointsIn restored m = pointsIn rankings m) :
    deltas.foldlM Statement.creditRanking restored = .ok rankings' := by
  have hfits : ∀ d ∈ deltas, fitsPoints (pointsIn restored d.1 + d.2) = true := by
    intro d hd
    rw [hpoints, ← owed_of_mem hkeys hd, ← creditAll_points h]
    exact pointsIn_fits hrange d.1
  obtain ⟨again, hagain⟩ := creditAll_succeeds hkeys hfits
  have hexist : ∀ m ∈ deltas.map (·.1), m ∈ restored.map (·.membershipId) := by
    intro m hm
    rw [keys_eq_ranked, hranked, ← keys_eq_ranked]
    exact (mem_keys_creditAll h).mpr (.inr hm)
  have heq : rankings' = again := by
    apply rankings_ext hids ((ranked_of_existing hagain hexist).trans hranked).symm
    intro m _
    rw [creditAll_points hagain, hpoints, creditAll_points h]
  rw [hagain, heq]

/-- Taking back right after crediting leaves the rankings of before, with rows without points at the
end for those who had none, and crediting again then gives the same rankings. -/
theorem creditAll_round_trip (hrange : ∀ r ∈ rankings, fitsPoints r.points = true)
    (hids : (rankings.map (·.membershipId)).Nodup) (hkeys : (deltas.map (·.1)).Nodup)
    (h : deltas.foldlM Statement.creditRanking rankings = .ok rankings') :
    ∃ fresh : List MembershipId, fresh.Nodup ∧
      (∀ m, m ∈ fresh ↔ m ∈ deltas.map (·.1) ∧ m ∉ rankings.map (·.membershipId)) ∧
      (negated deltas).foldlM Statement.creditRanking rankings' =
        .ok (rankings ++ fresh.map fun m => ⟨m, 0, 0⟩) ∧
      deltas.foldlM Statement.creditRanking (rankings ++ fresh.map fun m => ⟨m, 0, 0⟩) =
      .ok rankings' := by
  have hids' := creditAll_nodup h hids
  obtain ⟨restored, hrestored, hranked, hpoints⟩ := creditAll_undo hrange hkeys h
  obtain ⟨fresh, hnodup, hfresh, hrows⟩ := creditAll_ranked h
  have heq : restored = rankings ++ fresh.map fun m => ⟨m, 0, 0⟩ := by
    refine rankings_ext ?_ ?_ fun m _ => ?_
    · rwa [keys_eq_ranked, hranked, ← keys_eq_ranked]
    · rw [hranked, hrows, ranked, ranked, List.map_append, List.map_map]
      rfl
    · rw [hpoints, pointsIn_append_zeros]
  subst heq
  exact ⟨fresh, hnodup, hfresh, hrestored,
    creditAll_redo (creditAll_fits h hrange) hids' hkeys h hranked hpoints⟩

end CardClub
