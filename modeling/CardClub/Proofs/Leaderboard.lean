import CardClub.Proofs.Settled

/-!
# The leaderboard and single rankings

A leaderboard is made in one pass over the sorted rankings, which hands on the position of the
entry before. A single ranking is positioned by counting those with more points. Both are the same
because the rankings behind an entry have no more points than it, and the first of its group of
equal points stands right behind those with more.
-/

namespace CardClub

open Club Work

variable {rankings rankings' above rest : List Ranking} {a b d r : Ranking} {points : Int}
  {e : RankingPosition} {s : Session} {semester : SemesterId} {m : MembershipId}

/-- The leaderboard entry of one of some rankings, positioned by its rank. -/
def entryIn (rankings : List Ranking) (r : Ranking) : RankingPosition :=
  ⟨r.membershipId, r.points, min (rank rankings r.points) lastPosition⟩

theorem rank_perm (h : rankings.Perm rankings') (points : Int) :
    rank rankings points = rank rankings' points :=
  congrArg (· + 1) (h.filter _).length_eq

theorem entryIn_perm (h : rankings.Perm rankings') : entryIn rankings = entryIn rankings' := by
  funext r
  rw [entryIn, entryIn, rank_perm h]

theorem rank_le_length (h : r ∈ rankings) : rank rankings r.points ≤ rankings.length := by
  apply Nat.succ_le_of_lt
  apply List.length_filter_lt_length_iff_exists.mpr
  exact ⟨r, h, by simp⟩

theorem rank_behind (habove : ∀ a ∈ above, points < a.points)
    (hrest : ∀ b ∈ rest, b.points ≤ points) : rank (above ++ rest) points = above.length + 1 := by
  have hall : above.filter (fun a => decide (points < a.points)) = above :=
    List.filter_eq_self.mpr fun a ha => decide_eq_true (habove a ha)
  have hnone : rest.filter (fun b => decide (points < b.points)) = [] := by
    apply List.filter_eq_nil_iff.mpr
    intro b hb
    rw [decide_eq_true_eq]
    exact Int.not_lt.mpr (hrest b hb)
  rw [rank, List.filter_append, hall, hnone, List.append_nil]

/-! ## The order of a leaderboard -/

theorem ranksBefore_iff : ranksBefore a b = true ↔
    b.points < a.points ∨ b.points = a.points ∧ a.membershipId ≤ b.membershipId := by
  simp [ranksBefore]

theorem ranksBefore_total (a b : Ranking) : (ranksBefore a b || ranksBefore b a) = true := by
  rw [Bool.or_eq_true, ranksBefore_iff, ranksBefore_iff]
  rcases Int.lt_trichotomy a.points b.points with hlt | heq | hgt
  · exact .inr (.inl hlt)
  · rcases Id.le_total a.membershipId b.membershipId with hle | hle
    · exact .inl (.inr ⟨heq.symm, hle⟩)
    · exact .inr (.inr ⟨heq, hle⟩)
  · exact .inl (.inl hgt)

theorem ranksBefore_trans (a b d : Ranking) (hab : ranksBefore a b = true)
    (hbd : ranksBefore b d = true) : ranksBefore a d = true := by
  rw [ranksBefore_iff] at hab hbd ⊢
  rcases hab with hab | ⟨hab, hle⟩
  · rcases hbd with hbd | ⟨hbd, -⟩
    · exact .inl (Int.lt_trans hbd hab)
    · exact .inl (hbd ▸ hab)
  · rcases hbd with hbd | ⟨hbd, hle'⟩
    · exact .inl (hab ▸ hbd)
    · exact .inr ⟨hbd.trans hab, Id.le_trans hle hle'⟩

theorem mergeSort_descending (rankings : List Ranking) :
    (rankings.mergeSort ranksBefore).Pairwise fun a b => b.points ≤ a.points := by
  apply (List.pairwise_mergeSort ranksBefore_trans ranksBefore_total rankings).imp
  intro a b hab
  rcases ranksBefore_iff.mp hab with hlt | ⟨heq, -⟩
  · exact Int.le_of_lt hlt
  · exact Int.le_of_eq heq

/-! ## Positions on the way -/

/-- The entry made behind `above` is that of its rank. -/
theorem positionsFrom_step
    (hsorted : (above ++ r :: rest).Pairwise fun a b => b.points ≤ a.points) :
    positionsFrom above.length (above.getLast?.map (entryIn (above ++ r :: rest))) (r :: rest) =
      entryIn (above ++ r :: rest) r ::
        positionsFrom (above.length + 1) (some (entryIn (above ++ r :: rest) r)) rest := by
  obtain ⟨habove, hrest, hsides⟩ := List.pairwise_append.mp hsorted
  have hbehind : ∀ b ∈ r :: rest, b.points ≤ r.points :=
    List.forall_mem_cons.mpr ⟨Int.le_refl _, (List.pairwise_cons.mp hrest).1⟩
  rcases List.eq_nil_or_concat above with rfl | ⟨init, q, rfl⟩
  · have hrank := @rank_behind [] _ _ (by simp) hbehind
    rw [entryIn, hrank]
    rfl
  · rw [List.concat_eq_append] at habove hsides ⊢
    rw [List.getLast?_concat, Option.map_some]
    by_cases heq : q.points = r.points
    · simp only [positionsFrom, entryIn, heq, if_true]
    · -- the last one before has more points, hence all before have
      have hmore : ∀ a ∈ init ++ [q], r.points < a.points := by
        have hq : r.points ≤ q.points := hsides q (by simp) r (by simp)
        have hinit := (List.pairwise_append.mp habove).2.2
        intro a ha
        rcases List.mem_append.mp ha with ha | ha
        · have hle := hinit a ha q (by simp)
          omega
        · obtain rfl := List.mem_singleton.mp ha
          omega
      have hrank := rank_behind hmore hbehind
      simp only [positionsFrom, entryIn, heq, if_false, hrank]

theorem positionsFrom_eq (hsorted : (above ++ rest).Pairwise fun a b => b.points ≤ a.points) :
    positionsFrom above.length (above.getLast?.map (entryIn (above ++ rest))) rest =
      rest.map (entryIn (above ++ rest)) := by
  -- the entry handed on is that of the last ranking of `above`, which grows by one
  induction rest generalizing above with
  | nil => rfl
  | cons r rest ih =>
      have hsplit : above ++ r :: rest = (above ++ [r]) ++ rest := by simp
      have hnext := @ih (above ++ [r]) (hsplit ▸ hsorted)
      rw [← hsplit, List.length_append, List.getLast?_concat, Option.map_some] at hnext
      rw [positionsFrom_step hsorted, List.map_cons]
      exact congrArg _ hnext

/-- Every entry of a leaderboard has the position of its rank. -/
theorem competitionPositions_eq (rankings : List Ranking) :
    competitionPositions rankings = (rankings.mergeSort ranksBefore).map (entryIn rankings) := by
  have hpass := @positionsFrom_eq [] _ (mergeSort_descending rankings)
  rw [List.nil_append, entryIn_perm (List.mergeSort_perm rankings ranksBefore)] at hpass
  exact hpass

theorem mem_competitionPositions :
    e ∈ competitionPositions rankings ↔ ∃ r ∈ rankings, entryIn rankings r = e := by
  rw [competitionPositions_eq, List.mem_map]
  simp only [List.mem_mergeSort]

theorem competitionPositions_results (rankings : List Ranking) :
    ((competitionPositions rankings).map fun e => (e.membershipId, e.points)).Perm
      (rankings.map fun r => (r.membershipId, r.points)) := by
  rw [competitionPositions_eq, List.map_map]
  exact (List.mergeSort_perm rankings ranksBefore).map _

theorem competitionPositions_ids (rankings : List Ranking) :
    ((competitionPositions rankings).map (·.membershipId)).Perm
      (rankings.map (·.membershipId)) := by
  have hids := (competitionPositions_results rankings).map Prod.fst
  rwa [List.map_map, List.map_map] at hids

/-! ## The two calls -/

theorem PositionRow.read_of_rank (hsmall : rankings.length < countLimit) (hr : r ∈ rankings) :
    PositionRow.read ⟨r.membershipId, r.points, rank rankings r.points⟩ =
      .ok (entryIn rankings r) := by
  have hle := rank_le_length hr
  have hlast : min (rank rankings r.points) lastPosition = rank rankings r.points := by
    apply Nat.min_eq_left
    rw [lastPosition]
    omega
  rw [PositionRow.read, readCounter_natCast (Nat.lt_of_le_of_lt hle hsmall), entryIn, hlast]
  rfl

namespace Service

theorem listRankings_run : (listRankings semester).run s =
    (.ok (competitionPositions (s.club.rankingsOf semester)), s) := rfl

theorem getRanking_run (hsmall : (s.club.rankingsOf semester).length < countLimit) :
    (getRanking semester m).run s =
      (match (s.club.rankingsOf semester).find? fun r => decide (r.membershipId = m) with
        | some r => .ok (entryIn (s.club.rankingsOf semester) r)
        | none => .error (.notFound .ranking m.uuid), s) := by
  rw [getRanking, bind_run, store, mapError_run, Store.getPosition, bind_run, read_run,
    Club.position?]
  cases hfind : (s.club.rankingsOf semester).find? fun r => decide (r.membershipId = m) with
  | none => rfl
  | some r =>
      have hread := PositionRow.read_of_rank hsmall (List.mem_of_find?_eq_some hfind)
      simp only [Option.map_some, hread]
      rfl

theorem getRanking_ok (hsmall : (s.club.rankingsOf semester).length < countLimit)
    (hids : ((s.club.rankingsOf semester).map (·.membershipId)).Nodup) :
    (getRanking semester m).run s = (.ok e, s) ↔
      e ∈ competitionPositions (s.club.rankingsOf semester) ∧ e.membershipId = m := by
  rw [getRanking_run hsmall, mem_competitionPositions]
  constructor
  · intro h
    cases hfind : (s.club.rankingsOf semester).find? fun r => decide (r.membershipId = m) with
    | none => simp [hfind] at h
    | some r =>
        obtain ⟨hr, hid⟩ := mem_of_find?_key hfind
        rw [hfind] at h
        obtain rfl := Except.ok.inj (Prod.mk.inj h).1
        exact ⟨⟨r, hr, rfl⟩, hid⟩
  · rintro ⟨⟨r, hr, rfl⟩, rfl⟩
    have hfind : (s.club.rankingsOf semester).find?
        (fun x => decide (x.membershipId = (entryIn (s.club.rankingsOf semester) r).membershipId)) =
          some r := find?_key hids hr
    rw [hfind]

theorem getRanking_notFound (hsmall : (s.club.rankingsOf semester).length < countLimit) :
    (getRanking semester m).run s = (.error (.notFound .ranking m.uuid), s) ↔
      m ∉ (s.club.rankingsOf semester).map (·.membershipId) := by
  rw [getRanking_run hsmall, ← find?_key_eq_none]
  cases (s.club.rankingsOf semester).find? fun r => decide (r.membershipId = m) <;> simp

end Service

theorem Club.Consistent.not_mem_rankingsOf {c : Club} (hc : c.Consistent) {x : Membership}
    (hx : x ∈ c.memberships) (hother : x.semesterId ≠ semester) :
    x.id ∉ (c.rankingsOf semester).map (·.membershipId) := by
  intro hmem
  obtain ⟨r, hr, hid⟩ := List.mem_map.mp hmem
  obtain ⟨y, hy, hown⟩ := List.any_eq_true.mp (List.mem_filter.mp hr).2
  simp only [Bool.and_eq_true, decide_eq_true_eq] at hown
  obtain rfl : y = x := List.inj_on_of_nodup_map hc.membership_ids hy hx (hown.1.trans hid)
  exact hother hown.2

/-- As long as a semester has fewer than 2 ^ 32 rankings, the ranking of a membership is its only
entry on the leaderboard, and it is not found exactly if there is none. There is none for the
memberships of other semesters. -/
theorem ranking_is_leaderboard_entry {steps : List Step} (hsteps : ∀ x ∈ steps, x.isProgram = true)
    {semester : SemesterId}
    (hsmall : ((Session.start.after steps).club.rankingsOf semester).length < countLimit) :
    let s := Session.start.after steps
    ∃ board, (Service.listRankings semester).run s = (.ok board, s) ∧
      (board.map (·.membershipId)).Nodup ∧
      ∀ m, (∀ r, (Service.getRanking semester m).run s = (.ok r, s) ↔
          r ∈ board ∧ r.membershipId = m) ∧
        ((Service.getRanking semester m).run s = (.error (.notFound .ranking m.uuid), s) ↔
          ∀ r ∈ board, r.membershipId ≠ m) ∧
        ∀ x ∈ s.club.memberships, x.id = m → x.semesterId ≠ semester →
          (Service.getRanking semester m).run s = (.error (.notFound .ranking m.uuid), s) := by
  intro s
  have hc : s.club.Consistent := Session.consistent_after hsteps
  have hids : ((s.club.rankingsOf semester).map (·.membershipId)).Nodup :=
    hc.ranking_ids.sublist (List.filter_sublist.map _)
  have hperm := competitionPositions_ids (s.club.rankingsOf semester)
  refine ⟨_, Service.listRankings_run, hperm.nodup_iff.mpr hids, ?_⟩
  intro m
  refine ⟨fun r => Service.getRanking_ok hsmall hids, ?_, ?_⟩
  · rw [Service.getRanking_notFound hsmall, ← hperm.mem_iff]
    simp
  · rintro x hx rfl hother
    exact (Service.getRanking_notFound hsmall).mpr (hc.not_mem_rankingsOf hx hother)

/-! ## A shared first position

Two members share the lead of their semester. The third is the only member of another semester.
-/

namespace SharedLead

open Night (uuid time)

def steps : List Step :=
  Night.steps (time 50) ++
    [.call ⟨uuid 8, time 80⟩ (.service (.createMembership ⟨uuid 1⟩ ⟨uuid 93⟩ false false)),
      .call ⟨uuid 9, time 80⟩ (.service (.createSemester Night.terms)),
      .call ⟨uuid 10, time 80⟩ (.service (.createMembership ⟨uuid 9⟩ ⟨uuid 91⟩ false false)),
      .call ⟨uuid 11, time 80⟩ (.service (.batchUpdateRankings
        [(⟨uuid 2⟩, 7), (⟨uuid 3⟩, 7), (⟨uuid 8⟩, -5), (⟨uuid 10⟩, 30)]))]

end SharedLead

theorem shared_lead_is_leaderboard_entry :
    let s := Session.start.after SharedLead.steps
    ∃ board, (Service.listRankings ⟨Night.uuid 1⟩).run s = (.ok board, s) ∧
      ⟨⟨Night.uuid 2⟩, 7, 1⟩ ∈ board ∧ ⟨⟨Night.uuid 3⟩, 7, 1⟩ ∈ board ∧
      ⟨⟨Night.uuid 8⟩, -5, 3⟩ ∈ board ∧ ∀ r ∈ board, r.membershipId ≠ ⟨Night.uuid 10⟩ := by
  intro s
  obtain ⟨board, hboard, -, hentry⟩ := ranking_is_leaderboard_entry
    (by decide +kernel : ∀ x ∈ SharedLead.steps, x.isProgram = true)
    (by decide +kernel :
      ((Session.start.after SharedLead.steps).club.rankingsOf ⟨Night.uuid 1⟩).length < countLimit)
  refine ⟨board, hboard, ?_, ?_, ?_, ?_⟩
  · exact (((hentry ⟨Night.uuid 2⟩).1 ⟨⟨Night.uuid 2⟩, 7, 1⟩).mp rfl).1
  · exact (((hentry ⟨Night.uuid 3⟩).1 ⟨⟨Night.uuid 3⟩, 7, 1⟩).mp rfl).1
  · exact (((hentry ⟨Night.uuid 8⟩).1 ⟨⟨Night.uuid 8⟩, -5, 3⟩).mp rfl).1
  · exact (hentry ⟨Night.uuid 10⟩).2.1.mp rfl

end CardClub
