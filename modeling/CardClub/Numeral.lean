/-!
# Positional numerals

Digits of a fixed width, most significant first, and the number that a run of digits denotes.
Reading the digits of a number gives its remainder modulo the power of the base that the width
allows.
-/

namespace CardClub

def tenPow (n : Nat) : Nat := Nat.pow 10 n

@[simp] theorem tenPow_zero : tenPow 0 = 1 := rfl

theorem tenPow_succ (n : Nat) : tenPow (n + 1) = tenPow n * 10 := rfl

namespace Numeral

/-- The `width` lowest digits of a number in base `b`, most significant first. -/
def digits (b : Nat) : (width : Nat) → Nat → List Nat
  | 0, _ => []
  | w + 1, n => digits b w (n / b) ++ [n % b]

/-- The number that a run of digits denotes in base `b`. -/
def value (b : Nat) (ds : List Nat) : Nat :=
  ds.foldl (fun n d => n * b + d) 0

@[simp] theorem digits_zero (b n : Nat) : digits b 0 n = [] := rfl

@[simp] theorem digits_succ (b w n : Nat) :
    digits b (w + 1) n = digits b w (n / b) ++ [n % b] := rfl

@[simp] theorem value_nil (b : Nat) : value b [] = 0 := rfl

@[simp] theorem value_concat (b d : Nat) (ds : List Nat) :
    value b (ds ++ [d]) = value b ds * b + d := by
  simp [value, List.foldl_append]

@[simp] theorem length_digits (b w n : Nat) : (digits b w n).length = w := by
  induction w generalizing n with
  | zero => rfl
  | succ w ih => simp [ih]

theorem mem_digits_lt {b w n d : Nat} (hb : 0 < b) (h : d ∈ digits b w n) : d < b := by
  induction w generalizing n with
  | zero => simp at h
  | succ w ih =>
    rcases List.mem_append.mp h with h | h
    · exact ih h
    · rw [List.mem_singleton.mp h]
      exact Nat.mod_lt n hb

theorem value_digits (b w n : Nat) : value b (digits b w n) = n % Nat.pow b w := by
  induction w generalizing n with
  | zero => exact (Nat.mod_one n).symm
  | succ w ih =>
    rw [digits_succ, value_concat, ih, Nat.mul_comm, Nat.add_comm]
    show _ = n % (Nat.pow b w * b)
    rw [Nat.mul_comm (Nat.pow b w) b, Nat.mod_mul]

theorem value_digits_of_lt {b w n : Nat} (h : n < Nat.pow b w) : value b (digits b w n) = n := by
  rw [value_digits, Nat.mod_eq_of_lt h]

def decimalDigit? (c : Char) : Option Nat :=
  if c.isDigit then some (c.toNat - '0'.toNat) else none

def hexDigit? (c : Char) : Option Nat :=
  if c.isDigit then some (c.toNat - '0'.toNat)
  else if 'a' ≤ c ∧ c ≤ 'f' then some (c.toNat - 'a'.toNat + 10)
  else if 'A' ≤ c ∧ c ≤ 'F' then some (c.toNat - 'A'.toNat + 10)
  else none

theorem decimalDigit?_digitChar : ∀ d < 10, decimalDigit? d.digitChar = some d := by decide

theorem hexDigit?_digitChar : ∀ d < 16, hexDigit? d.digitChar = some d := by decide

def pad (width n : Nat) : List Char :=
  (digits 10 width n).map Nat.digitChar

@[simp] theorem length_pad (width n : Nat) : (pad width n).length = width := by
  simp [pad]

/-- Takes digits off the front of a text, at most `limit` of them. -/
def takeDigits : (limit : Nat) → List Char → List Nat × List Char
  | 0, cs => ([], cs)
  | _ + 1, [] => ([], [])
  | n + 1, c :: cs =>
    match decimalDigit? c with
    | some d => let (ds, rest) := takeDigits n cs; (d :: ds, rest)
    | none => ([], c :: cs)

/-- A number at the front of a text: one to `limit` decimal digits. -/
def number? (limit : Nat) (cs : List Char) : Option (Nat × List Char) :=
  match takeDigits limit cs with
  | ([], _) => none
  | (ds, rest) => some (value 10 ds, rest)

theorem takeDigits_map_digitChar (ds : List Nat) (h : ∀ d ∈ ds, d < 10) (rest : List Char) :
    takeDigits ds.length (ds.map Nat.digitChar ++ rest) = (ds, rest) := by
  induction ds with
  | nil => rfl
  | cons d ds ih =>
    have hd := decimalDigit?_digitChar d (h d (by simp))
    simp [takeDigits, hd, ih fun d hd => h d (by simp [hd])]

theorem number?_pad {width n : Nat} (hw : 0 < width) (h : n < tenPow width) (rest : List Char) :
    number? width (pad width n ++ rest) = some (n, rest) := by
  have ht := takeDigits_map_digitChar (digits 10 width n)
    (fun d hd => mem_digits_lt (by decide) hd) rest
  rw [length_digits] at ht
  have hne : digits 10 width n ≠ [] := by
    intro h0
    have := length_digits 10 width n
    rw [h0] at this
    simp only [List.length_nil] at this
    omega
  have hv := value_digits_of_lt h
  rw [number?, pad, ht]
  generalize digits 10 width n = ds at hne hv
  cases ds with
  | nil => exact absurd rfl hne
  | cons d ds => simp only [hv]

end Numeral

end CardClub
