/-!
# Instants

An instant is a second counted from 1970-01-01T00:00:00Z and a nanosecond within it. The last second
of a minute may be a leap second, which is told by a nanosecond of 10^9 or more. Instants of the
tables keep whole microseconds, counted from 2000-01-01T00:00:00Z and cut off toward that instant.
-/

namespace CardClub

/-- A point in time of the years from -262143 to 262142. -/
structure Instant where
  /-- Whole seconds from 1970-01-01T00:00:00Z. -/
  second : Int
  /-- Nanoseconds within the second; a leap second goes on from 10^9. -/
  nanosecond : Nat
  second_ge : -8334601228800 ≤ second
  second_le : second ≤ 8210266876799
  nanosecond_lt : nanosecond < 2000000000
  leap : 1000000000 ≤ nanosecond → second % 60 = 59
deriving DecidableEq

namespace Instant

/-- The instant with given parts, when they are in range. -/
def ofParts? (second : Int) (nanosecond : Nat) : Option Instant :=
  if h : -8334601228800 ≤ second ∧ second ≤ 8210266876799 ∧ nanosecond < 2000000000 ∧
      (1000000000 ≤ nanosecond → second % 60 = 59) then
    some ⟨second, nanosecond, h.1, h.2.1, h.2.2.1, h.2.2.2⟩
  else none

@[simp] theorem ofParts?_self (t : Instant) : ofParts? t.second t.nanosecond = some t := by
  rw [ofParts?, dif_pos ⟨t.second_ge, t.second_le, t.nanosecond_lt, t.leap⟩]

def epoch : Instant := ⟨0, 0, by decide, by decide, by decide, by decide⟩

instance : Inhabited Instant := ⟨epoch⟩

instance : LT Instant :=
  ⟨fun a b => a.second < b.second ∨ a.second = b.second ∧ a.nanosecond < b.nanosecond⟩
instance : LE Instant :=
  ⟨fun a b => a.second < b.second ∨ a.second = b.second ∧ a.nanosecond ≤ b.nanosecond⟩
instance (a b : Instant) : Decidable (a < b) :=
  inferInstanceAs
    (Decidable (a.second < b.second ∨ a.second = b.second ∧ a.nanosecond < b.nanosecond))
instance (a b : Instant) : Decidable (a ≤ b) :=
  inferInstanceAs
    (Decidable (a.second < b.second ∨ a.second = b.second ∧ a.nanosecond ≤ b.nanosecond))

theorem lt_def {a b : Instant} :
    a < b ↔ a.second < b.second ∨ a.second = b.second ∧ a.nanosecond < b.nanosecond := Iff.rfl

theorem le_def {a b : Instant} :
    a ≤ b ↔ a.second < b.second ∨ a.second = b.second ∧ a.nanosecond ≤ b.nanosecond := Iff.rfl

theorem ext_parts {a b : Instant} (hs : a.second = b.second) (hn : a.nanosecond = b.nanosecond) :
    a = b := by
  cases a; cases b; simp_all

theorem le_refl (a : Instant) : a ≤ a := Or.inr ⟨rfl, Nat.le_refl _⟩

theorem le_total (a b : Instant) : a ≤ b ∨ b ≤ a := by
  simp only [le_def]
  omega

theorem le_trans {a b c : Instant} (hab : a ≤ b) (hbc : b ≤ c) : a ≤ c := by
  simp only [le_def] at *
  omega

theorem le_antisymm {a b : Instant} (hab : a ≤ b) (hba : b ≤ a) : a = b := by
  simp only [le_def] at hab hba
  exact ext_parts (by omega) (by omega)

theorem lt_iff_not_le {a b : Instant} : a < b ↔ ¬ b ≤ a := by
  simp only [lt_def, le_def]
  omega

/-- Seconds from 1970-01-01T00:00:00Z to 2000-01-01T00:00:00Z. -/
def year2000 : Int := 946684800

/-- The whole microseconds from the start of 2000, cut off toward that instant. -/
def microseconds (t : Instant) : Int :=
  Int.tdiv ((t.second - year2000) * 1000000000 + t.nanosecond) 1000

/-- The instant that a table gives back for one that it was given. -/
def stored (t : Instant) : Instant :=
  let nanoseconds := t.microseconds * 1000
  (ofParts? (year2000 + nanoseconds / 1000000000) (nanoseconds % 1000000000).toNat).getD t

@[simp] theorem stored_stored (t : Instant) : t.stored.stored = t.stored := by
  rcases h : ofParts? (year2000 + t.microseconds * 1000 / 1000000000)
      (t.microseconds * 1000 % 1000000000).toNat with _ | kept
  · have hs : t.stored = t := by simp [stored, h]
    rw [hs, hs]
  · have hs : t.stored = kept := by simp [stored, h]
    have hm : kept.microseconds = t.microseconds := by
      unfold ofParts? at h
      split at h
      · obtain rfl := Option.some.inj h
        have hn : ∀ n : Int, (year2000 + n * 1000 / 1000000000 - year2000) * 1000000000 +
            ((n * 1000 % 1000000000).toNat : Int) = n * 1000 := by omega
        rw [microseconds, hn, Int.mul_tdiv_cancel _ (by decide)]
      · cases h
    rw [hs, stored, hm, h]
    rfl

end Instant

end CardClub
