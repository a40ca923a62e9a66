import CardClub.Club
import CardClub.Standings

/-!
# Listing and finishing order

Participants are listed by their sign-out times, late ones first, and of equal times the smaller
identifier comes first. Once all of an event have signed out, the listing is the finishing order; it
does not depend on placements.
-/

namespace CardClub

theorem Instant.eq_iff {a b : Instant} :
    a = b ↔ a.second = b.second ∧ a.nanosecond = b.nanosecond :=
  ⟨fun h => h ▸ ⟨rfl, rfl⟩, fun h => Instant.ext_parts h.1 h.2⟩

namespace Club

variable {a b d : Participant} {s t : Instant}

theorem listedBefore_of_signedOut (ha : a.signedOutAt = some s) (hb : b.signedOutAt = some t) :
    listedBefore a b = true ↔ t < s ∨ t = s ∧ a.id ≤ b.id := by
  simp [listedBefore, ha, hb]

theorem listedBefore_total (a b : Participant) : (listedBefore a b || listedBefore b a) = true := by
  unfold listedBefore
  cases a.signedOutAt <;> cases b.signedOutAt <;>
    simp only [Bool.or_eq_true, Bool.and_eq_true, decide_eq_true_eq, Instant.lt_def, Instant.eq_iff,
      Id.le_def, true_or, or_true]
  all_goals omega

theorem listedBefore_trans (a b d : Participant) (hab : listedBefore a b = true)
    (hbd : listedBefore b d = true) : listedBefore a d = true := by
  revert hab hbd
  unfold listedBefore
  cases a.signedOutAt <;> cases b.signedOutAt <;> cases d.signedOutAt <;>
    simp only [Bool.or_eq_true, Bool.and_eq_true, decide_eq_true_eq, Instant.lt_def, Instant.eq_iff,
      Id.le_def, Bool.false_eq_true, false_implies, implies_true]
  all_goals omega

theorem listedBefore_antisymm {a b : Participant} (hab : listedBefore a b = true)
    (hba : listedBefore b a = true) : a.id = b.id := by
  have hle : a.id.uuid.number ≤ b.id.uuid.number → b.id.uuid.number ≤ a.id.uuid.number →
    a.id = b.id :=
    Id.le_antisymm
  revert hab hba
  unfold listedBefore
  cases a.signedOutAt <;> cases b.signedOutAt <;>
    simp only [Bool.or_eq_true, Bool.and_eq_true, decide_eq_true_eq, Instant.lt_def, Instant.eq_iff,
      Id.le_def, Bool.false_eq_true, false_implies, implies_true]
  · exact hle
  · intro hab hba
    refine hle ?_ ?_ <;> omega

theorem listedBefore_congr {a' b' : Participant} (ha : a'.id = a.id)
    (ha' : a'.signedOutAt = a.signedOutAt)
    (hb : b'.id = b.id) (hb' : b'.signedOutAt = b.signedOutAt) :
    listedBefore a' b' = listedBefore a b := by
  simp only [listedBefore, ha, ha', hb, hb']

theorem participantsOf_perm (c : Club) (event : EventId) :
    (c.participantsOf event).Perm (c.field event) :=
  List.mergeSort_perm _ _

@[simp] theorem mem_participantsOf {c : Club} {event : EventId} {p : Participant} :
    p ∈ c.participantsOf event ↔ p ∈ c.field event :=
  (c.participantsOf_perm event).mem_iff

@[simp] theorem length_participantsOf (c : Club) (event : EventId) :
    (c.participantsOf event).length = (c.field event).length :=
  (c.participantsOf_perm event).length_eq

theorem participantsOf_pairwise (c : Club) (event : EventId) :
    (c.participantsOf event).Pairwise fun a b => listedBefore a b = true :=
  List.pairwise_mergeSort listedBefore_trans listedBefore_total _

theorem mergeSort_map_listed {f : Participant → Participant} {l : List Participant}
    (hid : ∀ p, (f p).id = p.id) (htime : ∀ p, (f p).signedOutAt = p.signedOutAt) :
    (l.map f).mergeSort listedBefore = (l.mergeSort listedBefore).map f :=
  (List.map_mergeSort fun a _ b _ =>
    (listedBefore_congr (hid a) (htime a) (hid b) (htime b)).symm).symm

end Club

open Club

theorem finishesBefore_of_signedOut {forcedAt : Instant} {a b : Participant}
    (ha : a.signedOutAt.isSome = true) (hb : b.signedOutAt.isSome = true) :
    finishesBefore forcedAt a b = listedBefore a b := by
  obtain ⟨s, hs⟩ := Option.isSome_iff_exists.mp ha
  obtain ⟨t, ht⟩ := Option.isSome_iff_exists.mp hb
  simp [finishesBefore, listedBefore, Participant.signOutOr, hs, ht]

/-- A listing in which all have signed out stands in finishing order. -/
theorem finishingOrder_participantsOf {c : Club} {event : EventId} (forcedAt : Instant)
    (h : ∀ p ∈ c.field event, p.signedOutAt.isSome = true) :
    finishingOrder forcedAt (c.participantsOf event) = c.participantsOf event := by
  apply List.mergeSort_of_pairwise
  refine (c.participantsOf_pairwise event).imp_of_mem fun ha hb hab => ?_
  rw [finishesBefore_of_signedOut (h _ (mem_participantsOf.mp ha)) (h _ (mem_participantsOf.mp hb))]
  exact hab

/-! ## Placements from first to last -/

variable {l : List Participant}

theorem pairwise_placement (h : l.map (·.placement) = List.range' 1 l.length) :
    l.Pairwise fun a b => a.placement < b.placement := by
  have hlt : (l.map (·.placement)).Pairwise (· < ·) := h ▸ List.pairwise_lt_range'
  exact List.pairwise_map.mp hlt

/-- In a listing with placements from 1 on, the better placed of two is the one that the other is
not listed before. -/
theorem placement_lt_iff (hl : l.Pairwise fun a b => listedBefore a b = true)
    (hids : (l.map (·.id)).Nodup) (hplaces : l.map (·.placement) = List.range' 1 l.length)
    {p q : Participant} (hp : p ∈ l) (hq : q ∈ l) :
    p.placement < q.placement ↔ listedBefore q p = false := by
  obtain ⟨i, hi, rfl⟩ := List.getElem_of_mem hp
  obtain ⟨j, hj, rfl⟩ := List.getElem_of_mem hq
  have horder := pairwise_placement hplaces
  have hne := List.pairwise_map.mp hids
  rw [List.pairwise_iff_getElem] at hl horder hne
  rcases Nat.lt_trichotomy i j with hij | hij | hij
  · apply iff_of_true (horder i j hi hj hij)
    rw [← Bool.not_eq_true]
    exact fun hback => hne i j hi hj hij (listedBefore_antisymm (hl i j hi hj hij) hback)
  · subst hij
    have hrefl : listedBefore l[i] l[i] = true := by simpa using listedBefore_total l[i] l[i]
    simp [hrefl]
  · have hlt := horder j i hj hi hij
    have hback := hl j i hj hi hij
    simp only [hback, Bool.true_eq_false, iff_false]
    omega

theorem mergeSort_pair {α : Type} (le : α → α → Bool) (a b : α) :
    [a, b].mergeSort le = if le a b then [a, b] else [b, a] := by
  simp [List.mergeSort, List.MergeSort.Internal.splitInTwo, List.merge]

end CardClub
