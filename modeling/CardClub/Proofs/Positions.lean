import CardClub.Proofs.Leaderboard

/-!
# Competition positions

A leaderboard has one entry for each ranking, from high to low points and for equal points by
membership. The position of an entry counts the rankings with more points, so it depends on the
points alone, and the whole leaderboard does not depend on the order of the rankings.
-/

namespace CardClub

/-- Whether an entry has its place on the leaderboard before or with another. -/
def RankingPosition.Before (a b : RankingPosition) : Prop :=
  b.points < a.points ∨ b.points = a.points ∧ a.membershipId ≤ b.membershipId

/-- An entry with the position that the points of some rankings give it. -/
def RankingPosition.Counted (rankings : List Ranking) (e : RankingPosition) : Prop :=
  e.position =
    min (1 + (rankings.filter fun r => decide (e.points < r.points)).length) (2 ^ 32 - 1)

variable {rankings rankings' : List Ranking} {a b e : RankingPosition}

theorem RankingPosition.Before.same (hab : a.Before b) (hba : b.Before a) :
    a.membershipId = b.membershipId ∧ a.points = b.points := by
  rcases hab with hlt | ⟨heq, hle⟩
  · rcases hba with hlt' | ⟨heq', -⟩ <;> omega
  · rcases hba with hlt' | ⟨-, hle'⟩
    · omega
    · exact ⟨Id.le_antisymm hle hle', heq.symm⟩

theorem RankingPosition.Counted.congr (h : rankings.Perm rankings') (he : e.Counted rankings) :
    e.Counted rankings' := by
  rwa [Counted, ← (h.filter _).length_eq]

/-! ## Entries -/

theorem competitionPositions_sorted (rankings : List Ranking) :
    (competitionPositions rankings).Pairwise RankingPosition.Before := by
  rw [competitionPositions_eq, List.pairwise_map]
  exact (List.pairwise_mergeSort ranksBefore_trans ranksBefore_total rankings).imp ranksBefore_iff.mp

theorem counted_of_mem (he : e ∈ competitionPositions rankings) : e.Counted rankings := by
  obtain ⟨r, -, rfl⟩ := mem_competitionPositions.mp he
  rw [RankingPosition.Counted, Nat.add_comm]
  rfl

/-- Counted entries of one ranking are the same entry. -/
theorem RankingPosition.Before.antisymm (ha : a.Counted rankings) (hb : b.Counted rankings)
    (hab : a.Before b) (hba : b.Before a) : a = b := by
  obtain ⟨hid, hpoints⟩ := hab.same hba
  have hposition : a.position = b.position := by rw [ha, hb, hpoints]
  cases a
  cases b
  simp_all

theorem competitionPositions_perm (h : rankings'.Perm rankings) :
    competitionPositions rankings' = competitionPositions rankings := by
  have hentries : (competitionPositions rankings').Perm (competitionPositions rankings) := by
    rw [competitionPositions_eq, competitionPositions_eq, entryIn_perm h]
    exact ((List.mergeSort_perm _ _).trans (h.trans (List.mergeSort_perm _ _).symm)).map _
  refine List.Perm.eq_of_pairwise (fun a b ha hb => ?_) (competitionPositions_sorted rankings')
    (competitionPositions_sorted rankings) hentries
  exact RankingPosition.Before.antisymm ((counted_of_mem ha).congr h) (counted_of_mem hb)

/-- The leaderboard of any rankings. Each ranking has its one entry with its membership and points,
high points come first and equal points by membership, each position is the number of rankings with
more points plus one, up to the last position, and the order of the rankings does not matter. -/
theorem leaderboard_of_rankings (rankings : List Ranking) :
    ((competitionPositions rankings).map fun e => (e.membershipId, e.points)).Perm
      (rankings.map fun r => (r.membershipId, r.points)) ∧
    (competitionPositions rankings).Pairwise RankingPosition.Before ∧
    (∀ rankings' : List Ranking, rankings'.Perm rankings →
      competitionPositions rankings' = competitionPositions rankings) ∧
    ∀ e ∈ competitionPositions rankings, e.Counted rankings :=
  ⟨competitionPositions_results rankings, competitionPositions_sorted rankings,
    fun _ => competitionPositions_perm, fun _ => counted_of_mem⟩

/-! ## Behind a shared lead -/

namespace SharedLead

open Night (uuid)

def scores : List Ranking := [⟨⟨uuid 8⟩, 50, 0⟩, ⟨⟨uuid 3⟩, 100, 0⟩, ⟨⟨uuid 2⟩, 100, 0⟩]

end SharedLead

theorem third_behind_shared_lead :
    competitionPositions SharedLead.scores.reverse = competitionPositions SharedLead.scores ∧
      ∃ e ∈ competitionPositions SharedLead.scores,
        e.membershipId = ⟨Night.uuid 8⟩ ∧ e.position = 3 := by
  obtain ⟨hresults, -, hperm, hcounted⟩ := leaderboard_of_rankings SharedLead.scores
  have hmem : ((⟨Night.uuid 8⟩, 50) : MembershipId × Int) ∈
      SharedLead.scores.map fun r => (r.membershipId, r.points) := by decide +kernel
  obtain ⟨e, he, heq⟩ := List.mem_map.mp (hresults.mem_iff.mpr hmem)
  obtain ⟨hid, hpoints⟩ := Prod.mk.inj heq
  have hposition := hcounted e he
  rw [RankingPosition.Counted, hpoints] at hposition
  exact ⟨hperm _ (List.reverse_perm _), e, he, hid, hposition⟩

end CardClub
