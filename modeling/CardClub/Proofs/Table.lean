import CardClub.Club.Statement
import Mathlib.Algebra.BigOperators.Group.List.Basic
import Mathlib.Algebra.Ring.Int.Defs
import Mathlib.Data.List.Nodup

/-!
# Tables with a key

A table is a list of records. Changing the records that pass a test keeps every column that the
change leaves alone, and looking a record up by a key without repetitions finds exactly that record.
-/

namespace CardClub

section Replace

variable {α β : Type} {test : α → Bool} {change : α → α} {l : List α}

theorem mem_replaceWhere {a : α} :
    a ∈ replaceWhere test change l ↔ ∃ b ∈ l, (if test b then change b else b) = a :=
  List.mem_map

theorem map_replaceWhere {f : α → β} (h : ∀ a ∈ l, test a = true → f (change a) = f a) :
    (replaceWhere test change l).map f = l.map f := by
  rw [replaceWhere, List.map_map]
  apply List.map_congr_left
  intro a ha
  by_cases ht : test a = true
  · simp [ht, h a ha ht]
  · simp [ht]

theorem replaceWhere_eq_self (h : ∀ a ∈ l, test a = true → change a = a) :
    replaceWhere test change l = l := by
  simpa using map_replaceWhere (f := id) h

theorem forall_mem_replaceWhere {P : α → Prop} (h : ∀ a ∈ l, P a)
    (hchange : ∀ a ∈ l, test a = true → P (change a)) :
    ∀ a ∈ replaceWhere test change l, P a := by
  intro a ha
  obtain ⟨b, hb, rfl⟩ := mem_replaceWhere.mp ha
  split
  · exact hchange b hb ‹_›
  · exact h b hb

theorem filter_replaceWhere {keep : α → Bool}
    (h : ∀ a ∈ l, test a = true → keep (change a) = keep a) :
    (replaceWhere test change l).filter keep = replaceWhere test change (l.filter keep) := by
  rw [replaceWhere, List.filter_map, replaceWhere]
  congr 1
  apply List.filter_congr
  intro a ha
  by_cases ht : test a = true
  · simp [ht, h a ha ht]
  · simp [ht]

theorem replaceWhere_replaceWhere {again : α → α}
    (h : ∀ a ∈ l, test a = true → test (change a) = true) :
    replaceWhere test again (replaceWhere test change l) =
      replaceWhere test (fun a => again (change a)) l := by
  rw [replaceWhere, replaceWhere, replaceWhere, List.map_map]
  apply List.map_congr_left
  intro a ha
  by_cases ht : test a = true
  · simp [ht, h a ha ht]
  · simp [ht]

section Rows

variable {κ : Type} [DecidableEq κ] {key : α → κ} {k k' : κ} {change' : α → α}

/-- Changes of rows with different keys can be made in either order. -/
theorem replaceWhere_comm (hne : k ≠ k') (hchange : ∀ a, key a = k → key (change a) = k)
    (hchange' : ∀ a, key a = k' → key (change' a) = k') :
    replaceWhere (fun a => decide (key a = k')) change'
        (replaceWhere (fun a => decide (key a = k)) change l) =
      replaceWhere (fun a => decide (key a = k)) change
        (replaceWhere (fun a => decide (key a = k')) change' l) := by
  simp only [replaceWhere, List.map_map]
  apply List.map_congr_left
  intro a _
  by_cases hk : key a = k
  · simp [hk, hchange a hk, hne]
  · by_cases hk' : key a = k'
    · simp [hk', hchange' a hk', hne.symm]
    · simp [hk, hk']

theorem find?_replaceWhere (hne : k ≠ k') (hchange : ∀ a, key a = k → key (change a) = k) :
    (replaceWhere (fun a => decide (key a = k)) change l).find? (fun a => decide (key a = k')) =
      l.find? fun a => decide (key a = k') := by
  induction l with
  | nil => rfl
  | cons a l ih =>
      rw [replaceWhere, List.map_cons, ← replaceWhere, List.find?_cons, List.find?_cons, ih]
      by_cases hk : key a = k
      · simp [hk, hchange a hk, hne]
      · simp [hk]

theorem find?_replaceWhere_self (hchange : ∀ a, key a = k → key (change a) = k) :
    (replaceWhere (fun a => decide (key a = k)) change l).find? (fun a => decide (key a = k)) =
      (l.find? fun a => decide (key a = k)).map change := by
  induction l with
  | nil => rfl
  | cons a l ih =>
      rw [replaceWhere, List.map_cons, ← replaceWhere, List.find?_cons, List.find?_cons, ih]
      by_cases hk : key a = k
      · simp [hk, hchange a hk]
      · simp [hk]

/-- Changing the row of a key changes one place of the table. -/
theorem exists_replaceWhere_eq (hl : (l.map key).Nodup) {a : α} (ha : a ∈ l) :
    ∃ before after, l = before ++ a :: after ∧ ∀ change : α → α,
      replaceWhere (fun b => decide (key b = key a)) change l = before ++ change a :: after := by
  obtain ⟨before, after, rfl⟩ := List.append_of_mem ha
  refine ⟨before, after, rfl, fun change => ?_⟩
  rw [List.map_append, List.map_cons, List.nodup_middle, List.nodup_cons, List.mem_append] at hl
  have hrest {b : α} (hb : b ∈ before ∨ b ∈ after) : key b ≠ key a := by
    intro heq
    refine hl.1 (heq ▸ ?_)
    exact hb.imp List.mem_map_of_mem List.mem_map_of_mem
  have hkeep {rows : List α} (hrows : ∀ b ∈ rows, key b ≠ key a) :
      replaceWhere (fun b => decide (key b = key a)) change rows = rows :=
    replaceWhere_eq_self fun b hb heq => absurd (of_decide_eq_true heq) (hrows b hb)
  have hbefore := hkeep fun b hb => hrest (.inl hb)
  have hafter := hkeep fun b hb => hrest (.inr hb)
  rw [replaceWhere] at hbefore hafter ⊢
  rw [List.map_append, List.map_cons, hbefore, hafter, if_pos (by simp)]

end Rows

end Replace

/-- Two sums over the table that differ at one record only. -/
theorem sum_map_key {α κ : Type} {key : α → κ} {l : List α} (hl : (l.map key).Nodup) {a : α}
    (ha : a ∈ l) {f g : α → Int}
    (h : ∀ b ∈ l, key b ≠ key a → f b = g b) : (l.map f).sum = (l.map g).sum + (f a - g a) := by
  induction l with
  | nil => simp at ha
  | cons b l ih =>
      obtain ⟨hb, hl⟩ := List.nodup_cons.mp hl
      obtain ⟨hhead, htail⟩ := List.forall_mem_cons.mp h
      rw [List.map_cons, List.map_cons, List.sum_cons, List.sum_cons]
      rcases List.mem_cons.mp ha with rfl | ha
      · have hrest : l.map f = l.map g := by
          refine List.map_congr_left fun c hc => htail c hc fun hk => hb ?_
          exact List.mem_map.mpr ⟨c, hc, hk⟩
        rw [hrest]
        omega
      · have hne : key b ≠ key a := fun hk => hb (List.mem_map.mpr ⟨a, ha, hk.symm⟩)
        rw [ih hl ha htail, hhead hne]
        omega

section Key

variable {α κ : Type} [DecidableEq κ] {key : α → κ} {l : List α}

theorem mem_of_find?_key {k : κ} {a : α} (h : l.find? (fun b => decide (key b = k)) = some a) :
    a ∈ l ∧ key a = k :=
  ⟨List.mem_of_find?_eq_some h, by simpa using List.find?_some h⟩

theorem isSome_find?_key {k : κ} :
    (l.find? fun b => decide (key b = k)).isSome = true ↔ k ∈ l.map key := by
  simp [List.find?_isSome]

theorem find?_key_eq_none {k : κ} :
    (l.find? fun b => decide (key b = k)) = none ↔ k ∉ l.map key := by
  simp [List.find?_eq_none]

theorem find?_key (hl : (l.map key).Nodup) {a : α} (ha : a ∈ l) :
    l.find? (fun b => decide (key b = key a)) = some a := by
  have hsome : (l.find? fun b => decide (key b = key a)).isSome = true :=
    isSome_find?_key.mpr (List.mem_map_of_mem ha)
  obtain ⟨b, hb⟩ := Option.isSome_iff_exists.mp hsome
  obtain ⟨hmem, hkey⟩ := mem_of_find?_key hb
  rw [hb, List.inj_on_of_nodup_map hl hmem ha hkey]

theorem filter_key (hl : (l.map key).Nodup) {a : α} (ha : a ∈ l) :
    l.filter (fun b => decide (key b = key a)) = [a] := by
  obtain ⟨before, after, rfl⟩ := List.append_of_mem ha
  rw [List.map_append, List.map_cons, List.nodup_middle, List.nodup_cons, List.mem_append] at hl
  have hrest {rows : List α} (hrows : key a ∉ rows.map key) :
      rows.filter (fun b => decide (key b = key a)) = [] := by
    refine List.filter_eq_nil_iff.mpr fun b hb heq => hrows ?_
    exact of_decide_eq_true heq ▸ List.mem_map_of_mem hb
  rw [List.filter_append, List.filter_cons_of_pos (by simp), hrest fun h => hl.1 (.inl h),
    hrest fun h => hl.1 (.inr h), List.nil_append]

end Key

end CardClub
