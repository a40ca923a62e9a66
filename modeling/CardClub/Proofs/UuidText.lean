import CardClub.Uuid.Text
import Mathlib.Algebra.GroupWithZero.Nat

/-!
# Identifiers are read back

The written form of an identifier begins with a digit and has a length of its own, so it is taken
for the grouped form. Without the hyphens it is the numeral of the identifier.
-/

namespace CardClub.Uuid

variable {ws : List Nat} {cs : List Char} {u : Uuid}

theorem length_group (h : cs.length = ws.sum) :
    (group ws cs).length = cs.length + (ws.length - 1) := by
  induction ws, cs using group.induct with
  | case1 cs => simp [group]
  | case2 w cs => simp [group]
  | case3 w ws cs hws ih =>
      rw [List.sum_cons] at h
      have hrest : (cs.drop w).length = ws.sum := by
        rw [List.length_drop]
        omega
      have hpos : 0 < ws.length := List.length_pos_iff.mpr hws
      rw [group, List.length_append, List.length_cons, ih hrest, List.length_take, hrest,
        List.length_cons]
      · omega
      · exact hws

theorem ungroup?_group (hne : ws ≠ []) (h : cs.length = ws.sum) :
    ungroup? ws (group ws cs) = some cs := by
  induction ws, cs using group.induct with
  | case1 cs => exact absurd rfl hne
  | case2 w cs =>
      rw [group, ungroup?, if_pos]
      simpa using h
  | case3 w ws cs hws ih =>
      rw [List.sum_cons] at h
      have hrest : (cs.drop w).length = ws.sum := by
        rw [List.length_drop]
        omega
      have hhead : (cs.take w).length = w := by
        rw [List.length_take]
        omega
      rw [group, ungroup?, List.drop_left' hhead, List.take_left' hhead]
      · simp only [ih hws hrest, Option.map_some, List.take_append_drop]
      · exact hws
      · exact hws

/-! ## Hexadecimal digits -/

theorem mapM_hexDigit? {ds : List Nat} (h : ∀ d ∈ ds, d < 16) :
    (ds.map Nat.digitChar).mapM Numeral.hexDigit? = some ds := by
  induction ds with
  | nil => rfl
  | cons d ds ih =>
      obtain ⟨hd, hds⟩ := List.forall_mem_cons.mp h
      rw [List.map_cons, List.mapM_cons, Numeral.hexDigit?_digitChar d hd, ih hds]
      rfl

theorem length_hex (u : Uuid) : u.hex.length = 32 := by
  rw [hex, List.length_map, Numeral.length_digits]

theorem ofHex?_hex (u : Uuid) : ofHex? u.hex = some u := by
  have hdigits := mapM_hexDigit? fun d (hd : d ∈ Numeral.digits 16 32 u.number) =>
    Numeral.mem_digits_lt (by decide) hd
  have hvalue : Numeral.value 16 (Numeral.digits 16 32 u.number) = u.number :=
    Numeral.value_digits_of_lt u.number_lt
  rw [ofHex?, if_pos u.length_hex, hex, hdigits, Option.bind_some, hvalue, ofNat?_number]

theorem ofGroups?_toChars (u : Uuid) : ofGroups? u.toChars = some u := by
  rw [ofGroups?, toChars, ungroup?_group (by decide) u.length_hex, Option.bind_some, ofHex?_hex]

/-! ## Which form is read -/

theorem length_toChars (u : Uuid) : u.toChars.length = 36 := by
  rw [toChars, length_group u.length_hex, length_hex]
  rfl

theorem toChars_cons (u : Uuid) : ∃ d < 16, ∃ cs, u.toChars = Nat.digitChar d :: cs := by
  have hlength := Numeral.length_digits 16 32 u.number
  cases hds : Numeral.digits 16 32 u.number with
  | nil =>
      rw [hds] at hlength
      cases hlength
  | cons d ds =>
      have hd : d < 16 := Numeral.mem_digits_lt (by decide) (hds ▸ List.mem_cons_self)
      refine ⟨d, hd, ?_⟩
      rw [toChars, hex, hds]
      exact ⟨_, rfl⟩

theorem digitChar_ne_brace : ∀ d < 16, Nat.digitChar d ≠ '{' := by decide

theorem toLower_digitChar_ne : ∀ d < 16, (Nat.digitChar d).toLower ≠ 'u' := by decide +kernel

theorem nameSpace_eq : nameSpace = ['u', 'r', 'n', ':', 'u', 'u', 'i', 'd', ':'] := by
  decide +kernel

theorem ofChars?_cons {c : Char} (hbrace : c ≠ '{') (hlower : c.toLower ≠ 'u')
    (hlength : (c :: cs).length ≠ 32) : ofChars? (c :: cs) = ofGroups? (c :: cs) := by
  have hspace : inNameSpace (c :: cs) = false := by
    simp [inNameSpace, nameSpace_eq, hlower]
  unfold ofChars?
  split
  · next h => exact absurd (List.cons.inj h).1 hbrace
  · rw [if_neg hlength, hspace, if_neg Bool.false_ne_true]

theorem ofText?_toText (u : Uuid) : ofText? u.toText = some u := by
  obtain ⟨d, hd, cs, hcs⟩ := u.toChars_cons
  have hlength := u.length_toChars
  rw [ofText?, toText, String.toList_ofList]
  rw [hcs] at hlength ⊢
  rw [ofChars?_cons (digitChar_ne_brace d hd) (toLower_digitChar_ne d hd) (by omega), ← hcs,
    ofGroups?_toChars]

end CardClub.Uuid
