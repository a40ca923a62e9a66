import CardClub.Proofs.Reordering
import CardClub.Proofs.Settled

/-!
# Updating rankings one by one or as a batch

A batch of deltas for different memberships does what updating them one by one does, in any order.
It succeeds when all of the single updates do, and leaves the same rankings. Only when one of them
fails is there a difference: the batch has then written nothing.
-/

namespace CardClub

open Work

namespace Service

/-- Updates rankings one by one and gives the new totals. -/
def updateEach (deltas : List (MembershipId × Int)) : Work ServiceError (List Int) :=
  deltas.mapM fun d => updateRanking d.1 d.2

variable {c c' : Club} {d : MembershipId × Int} {deltas order : List (MembershipId × Int)} {n : Nat}

theorem regular_updateRanking (d : MembershipId × Int) : Regular (updateRanking d.1 d.2) :=
  (Store.composed_updateRanking d.1 d.2).regular.mapError _

theorem updateRanking_yields_iff :
    (∃ total, (updateRanking d.1 d.2).Yields c total c') ↔ d.1 ∈ c.memberships.map (·.id) ∧
      fitsPoints (pointsIn c.rankings d.1 + d.2) = true ∧
      c' = { c with rankings := credited c.rankings d } := by
  have hwrite : (∃ total, (updateRanking d.1 d.2).Yields c total c') ↔
      ∃ n, Statement.creditRankings [d] c = .ok (n, c') := by
    simp [updateRanking, Store.updateRanking, bind_yields]
  rw [hwrite]
  simp only [Statement.creditRankings_ok, List.forall_mem_singleton, creditAll_cons_ok]
  constructor
  · rintro ⟨n, hm, -, rankings, ⟨hfits, hrest⟩, rfl⟩
    obtain rfl := Except.ok.inj hrest
    exact ⟨hm, hfits, rfl⟩
  · rintro ⟨hm, hfits, rfl⟩
    exact ⟨1, hm, rfl, _, ⟨hfits, rfl⟩, rfl⟩

theorem updateEach_yields_iff :
    (∃ totals, (updateEach deltas).Yields c totals c') ↔
      (∀ d ∈ deltas, d.1 ∈ c.memberships.map (·.id)) ∧
        ∃ rankings, deltas.foldlM Statement.creditRanking c.rankings = .ok rankings ∧
          c' = { c with rankings } := by
  induction deltas generalizing c with
  | nil =>
      simp only [updateEach, mapM_nil_yields, exists_eq_left]
      constructor
      · rintro rfl
        exact ⟨by simp, _, rfl, rfl⟩
      · rintro ⟨-, rankings, hnone, rfl⟩
        obtain rfl := Except.ok.inj hnone
        rfl
  | cons d deltas ih =>
      have hsplit : (∃ totals, (updateEach (d :: deltas)).Yields c totals c') ↔
          ∃ c₁, (∃ total, (updateRanking d.1 d.2).Yields c total c₁) ∧
            ∃ totals, (updateEach deltas).Yields c₁ totals c' := by
        simp only [updateEach, mapM_cons_yields regular_updateRanking]
        constructor
        · rintro ⟨-, total, c₁, totals, hhead, hrest, -⟩
          exact ⟨c₁, ⟨total, hhead⟩, totals, hrest⟩
        · rintro ⟨c₁, ⟨total, hhead⟩, totals, hrest⟩
          exact ⟨_, total, c₁, totals, hhead, hrest, rfl⟩
      rw [hsplit]
      simp only [updateRanking_yields_iff, ih, List.forall_mem_cons, creditAll_cons_ok]
      constructor
      · rintro ⟨_, ⟨hm, hfits, rfl⟩, hrest, rankings, hfold, rfl⟩
        exact ⟨⟨hm, hrest⟩, rankings, ⟨hfits, hfold⟩, rfl⟩
      · rintro ⟨⟨hm, hrest⟩, rankings, ⟨hfits, hfold⟩, rfl⟩
        exact ⟨_, ⟨hm, hfits, rfl⟩, hrest, rankings, hfold, rfl⟩

theorem batchUpdateRankings_yields :
    (batchUpdateRankings deltas).Yields c n c' ↔
      (∃ totals, (updateEach deltas).Yields c totals c') ∧ n = deltas.length := by
  rw [batchUpdateRankings, storeExcept_yields, Store.batchUpdateRankings_yields,
    Statement.creditRankings_ok, updateEach_yields_iff]
  tauto

theorem batchUpdateRankings_perm (hc : c.Consistent) (hkeys : (deltas.map (·.1)).Nodup)
    (horder : order.Perm deltas) (h : (batchUpdateRankings deltas).Yields c n c') :
    ∃ c'', (batchUpdateRankings order).Yields c n c'' ∧ c'.Alike c'' := by
  rw [batchUpdateRankings_yields, updateEach_yields_iff] at h
  obtain ⟨⟨hm, rankings, hfold, rfl⟩, rfl⟩ := h
  obtain ⟨rankings', hfold', hperm⟩ :=
    hc.creditAll_perm (.of_nodup hkeys) horder.symm (.refl _) hfold
  refine ⟨{ c with rankings := rankings' }, ?_, .of_perm hperm⟩
  rw [batchUpdateRankings_yields, updateEach_yields_iff]
  exact ⟨⟨fun d hd => hm d (horder.mem_iff.mp hd), rankings', hfold', rfl⟩, horder.length_eq.symm⟩

end Service

/-- A batch succeeds when the single updates do, in whatever order they are made. It gives the
number of the deltas, and the single updates leave the same tables but for the order of the
rankings. When a batch fails it changes nothing. -/
theorem batch_equals_single_updates {steps : List Step} (hsteps : ∀ x ∈ steps, x.isProgram = true)
    {deltas : List (MembershipId × Int)} (hkeys : (deltas.map (·.1)).Nodup) :
    let s := Session.start.after steps
    (∀ order, order.Perm deltas →
      ((∃ n c', (Service.batchUpdateRankings deltas).Yields s.club n c') ↔
        ∃ totals c', (Service.updateEach order).Yields s.club totals c')) ∧
    (∀ n c', (Service.batchUpdateRankings deltas).Yields s.club n c' → n = deltas.length ∧
      ∀ order totals c'', order.Perm deltas →
        (Service.updateEach order).Yields s.club totals c'' → c'.Alike c'') ∧
    ∀ cause after, (Service.batchUpdateRankings deltas).run s = (.error cause, after) →
      after.club = s.club := by
  intro s
  have hc : s.club.Consistent := Session.consistent_after hsteps
  refine ⟨fun order horder => ⟨?_, ?_⟩, ?_, ?_⟩
  · rintro ⟨n, c', hbatch⟩
    obtain ⟨c'', hbatch', -⟩ := Service.batchUpdateRankings_perm hc hkeys horder hbatch
    obtain ⟨⟨totals, hupdates⟩, -⟩ := Service.batchUpdateRankings_yields.mp hbatch'
    exact ⟨totals, c'', hupdates⟩
  · rintro ⟨totals, c', hupdates⟩
    have hkeys' : (order.map (·.1)).Nodup := (horder.map _).nodup_iff.mpr hkeys
    have hbatch := Service.batchUpdateRankings_yields.mpr ⟨⟨totals, hupdates⟩, rfl⟩
    obtain ⟨c'', hbatch', -⟩ := Service.batchUpdateRankings_perm hc hkeys' horder.symm hbatch
    exact ⟨_, c'', hbatch'⟩
  · intro n c' hbatch
    refine ⟨(Service.batchUpdateRankings_yields.mp hbatch).2, ?_⟩
    intro order totals c'' horder hupdates
    obtain ⟨c₁, hbatch', halike⟩ := Service.batchUpdateRankings_perm hc hkeys horder hbatch
    have hbatch'' := Service.batchUpdateRankings_yields.mpr ⟨⟨totals, hupdates⟩, rfl⟩
    obtain ⟨-, rfl⟩ := hbatch'.unique hbatch''
    exact halike
  · exact Service.atomic_batchUpdateRankings deltas s

/-! ## Two corrections

One of the two members has seven points already, the other one has no ranking yet.
-/

namespace Corrections

open Night (uuid time)

def steps : List Step :=
  Night.steps (time 50) ++ [.call ⟨uuid 8, time 80⟩ (.service (.updateRanking ⟨uuid 2⟩ 7))]

def deltas : List (MembershipId × Int) := [(⟨uuid 2⟩, 20), (⟨uuid 3⟩, -5)]

end Corrections

theorem corrections_equal_single_updates :
    let c := (Session.start.after Corrections.steps).club
    ∃ c', (Service.batchUpdateRankings Corrections.deltas).Yields c 2 c' ∧
      c'.rankings = [⟨⟨Night.uuid 2⟩, 27, 0⟩, ⟨⟨Night.uuid 3⟩, -5, 0⟩] ∧
      ∃ totals c'', (Service.updateEach Corrections.deltas.reverse).Yields c totals c'' ∧
        c'.Alike c'' := by
  intro c
  have hbatch : (Service.batchUpdateRankings Corrections.deltas).Yields c 2
      { c with rankings := [⟨⟨Night.uuid 2⟩, 27, 0⟩, ⟨⟨Night.uuid 3⟩, -5, 0⟩] } := rfl
  obtain ⟨hiff, halike, -⟩ :=
    batch_equals_single_updates
      (by decide +kernel : ∀ x ∈ Corrections.steps, x.isProgram = true)
      (by decide +kernel : (Corrections.deltas.map (·.1)).Nodup)
  have horder := Corrections.deltas.reverse_perm
  obtain ⟨totals, c'', hupdates⟩ := (hiff _ horder).mp ⟨2, _, hbatch⟩
  exact ⟨_, hbatch, rfl, totals, c'', hupdates, (halike _ _ hbatch).2 _ _ _ horder hupdates⟩

end CardClub
