import CardClub.Numeral

/-!
# Numerals in parts

A numeral of fixed width splits into two numerals, that of the quotient and that of the remainder,
and zeros in front make it wider. A number in as many digits as it needs is the numeral of that
width. Reading digits stops at the first character that is none.
-/

namespace CardClub.Numeral

variable {b w k n : Nat}

theorem digits_zero_eq (b w : Nat) : digits b w 0 = List.replicate w 0 := by
  induction w with
  | zero => rfl
  | succ w ih => rw [digits_succ, Nat.zero_div, Nat.zero_mod, ih, List.replicate_succ']

theorem div_ten_div (n k : Nat) : n / 10 / tenPow k = n / tenPow (k + 1) := by
  rw [Nat.div_div_eq_div_mul, Nat.mul_comm, ← tenPow_succ]

theorem digits_add (w k n : Nat) :
    digits 10 (w + k) n = digits 10 w (n / tenPow k) ++ digits 10 k n := by
  induction k generalizing n with
  | zero => simp
  | succ k ih =>
      rw [← Nat.add_assoc, digits_succ, digits_succ, ih, div_ten_div, List.append_assoc]

theorem pad_zero (w : Nat) : pad w 0 = List.replicate w '0' := by
  rw [pad, digits_zero_eq, List.map_replicate]
  rfl

theorem pad_add (w k n : Nat) : pad (w + k) n = pad w (n / tenPow k) ++ pad k n := by
  rw [pad, digits_add, List.map_append]
  rfl

/-- Zeros in front of a numeral make it wider. -/
theorem replicate_append_pad (k : Nat) (h : n < tenPow w) :
    List.replicate k '0' ++ pad w n = pad (k + w) n := by
  rw [pad_add, Nat.div_eq_of_lt h, pad_zero]

theorem lt_tenPow_length (n : Nat) : n < tenPow (Nat.toDigits 10 n).length :=
  (Nat.length_toDigits_le_iff (by decide) Nat.length_toDigits_pos).mp (Nat.le_refl _)

theorem toDigits_eq_pad (n : Nat) : Nat.toDigits 10 n = pad (Nat.toDigits 10 n).length n := by
  induction n using Nat.strongRecOn with
  | ind n ih =>
      rcases Nat.lt_or_ge n 10 with hlt | hge
      · rw [Nat.toDigits_of_lt_base hlt]
        simp [pad, Nat.mod_eq_of_lt hlt]
      · have hrest := ih (n / 10) (Nat.div_lt_self (by omega) (by decide))
        rw [Nat.toDigits_of_base_le (by decide) hge, List.length_append, List.length_singleton,
          pad, digits_succ, List.map_append, ← pad, ← hrest]
        rfl

theorem filled_eq_pad (k n : Nat) :
    List.replicate (k - (Nat.toDigits 10 n).length) '0' ++ Nat.toDigits 10 n =
      pad (max k (Nat.toDigits 10 n).length) n := by
  have hwidth : k - (Nat.toDigits 10 n).length + (Nat.toDigits 10 n).length =
      max k (Nat.toDigits 10 n).length := by omega
  rw [← hwidth, ← replicate_append_pad _ (lt_tenPow_length n), ← toDigits_eq_pad]

/-- Reading the low digits of a number behind the high ones. -/
theorem foldl_digits (k n : Nat) :
    (digits 10 k n).foldl (fun m d => m * 10 + d) (n / tenPow k) = n := by
  induction k generalizing n with
  | zero => simp
  | succ k ih =>
      rw [digits_succ, List.foldl_append, ← div_ten_div, ih, List.foldl_cons, List.foldl_nil,
        Nat.div_add_mod']

/-! ## Reading -/

/-- No digit follows. -/
def Stops (rest : List Char) : Prop := ∀ c ∈ rest.head?, decimalDigit? c = none

theorem takeDigits_append {ds : List Nat} (hds : ∀ d ∈ ds, d < 10) {limit : Nat}
    (hlimit : ds.length ≤ limit) {rest : List Char} (hrest : Stops rest) :
    takeDigits limit (ds.map Nat.digitChar ++ rest) = (ds, rest) := by
  induction ds generalizing limit with
  | nil =>
      cases limit with
      | zero => rfl
      | succ limit =>
          cases rest with
          | nil => rfl
          | cons c rest =>
              have hc : decimalDigit? c = none := hrest c rfl
              simp [takeDigits, hc]
  | cons d ds ih =>
      obtain ⟨hd, hds⟩ := List.forall_mem_cons.mp hds
      cases limit with
      | zero => simp at hlimit
      | succ limit =>
          have htail := ih hds (Nat.le_of_succ_le_succ hlimit)
          simp [takeDigits, decimalDigit?_digitChar d hd, htail]

theorem takeDigits_pad {limit : Nat} (hlimit : w ≤ limit) {rest : List Char} (hrest : Stops rest) :
    takeDigits limit (pad w n ++ rest) = (digits 10 w n, rest) :=
  takeDigits_append (fun _ hd => mem_digits_lt (by decide) hd) (by rwa [length_digits]) hrest

theorem digits_ne_nil (hw : 0 < w) : digits b w n ≠ [] := by
  intro h
  have hlength := length_digits b w n
  rw [h, List.length_nil] at hlength
  omega

theorem number?_pad_stops (hw : 0 < w) (h : n < tenPow w) {limit : Nat} (hlimit : w ≤ limit)
    {rest : List Char} (hrest : Stops rest) :
    number? limit (pad w n ++ rest) = some (n, rest) := by
  have hne : digits 10 w n ≠ [] := digits_ne_nil hw
  have hvalue : value 10 (digits 10 w n) = n := value_digits_of_lt h
  rw [number?, takeDigits_pad hlimit hrest]
  generalize digits 10 w n = ds at hne hvalue
  cases ds with
  | nil => exact absurd rfl hne
  | cons d ds => simp only [hvalue]

/-! ## The first character -/

theorem pad_succ_cons (w n : Nat) :
    ∃ d < 10, ∃ cs, pad (w + 1) n = Nat.digitChar d :: cs := by
  cases hds : digits 10 (w + 1) n with
  | nil => exact absurd hds (digits_ne_nil (Nat.succ_pos w))
  | cons d ds =>
      have hd : d < 10 := mem_digits_lt (by decide) (hds ▸ List.mem_cons_self)
      exact ⟨d, hd, ds.map Nat.digitChar, by rw [pad, hds, List.map_cons]⟩

theorem digitChar_ne_sign : ∀ d < 10, Nat.digitChar d ≠ '-' ∧ Nat.digitChar d ≠ '+' := by decide

end CardClub.Numeral
