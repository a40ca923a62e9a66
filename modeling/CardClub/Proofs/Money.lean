import CardClub.Amount
import CardClub.Proofs.Award
import Mathlib.Data.Rat.Lemmas

/-!
# The value of money

Two decimals are the same number exactly if their values are equal as fractions. Keeping a decimal
as an amount does not change its value, amounts add as their values do, and an amount whose
coefficient and scale are in range is read as a decimal of the same value.
-/

namespace CardClub

theorem tenPow_ne_zero (n : Nat) : tenPow n ≠ 0 := Nat.ne_of_gt (tenPow_pos n)

/-- Zeros behind the last fraction digit do not change a number. -/
theorem mkRat_tenPow (n : Int) {s t : Nat} (h : s ≤ t) :
    mkRat (n * tenPow (t - s)) (tenPow t) = mkRat n (tenPow s) := by
  obtain ⟨k, rfl⟩ := Nat.exists_eq_add_of_le h
  rw [Nat.add_sub_cancel_left, tenPow_add]
  exact Rat.mkRat_mul_right (tenPow_ne_zero k)

namespace Decimal

theorem sameValue_iff {a b : Decimal} : a.sameValue b = true ↔ a.value = b.value := by
  rw [value, value, Rat.mkRat_eq_iff (tenPow_ne_zero _) (tenPow_ne_zero _)]
  exact beq_iff_eq

theorem value_of_isZero {d : Decimal} (h : d.isZero = true) : d.value = 0 := by
  have hmag : d.magnitude = 0 := by simpa [isZero] using h
  have hcoef : d.coefficient = 0 := Int.natAbs_eq_zero.mp (hmag ▸ natAbs_coefficient d)
  rw [value, hcoef, Rat.zero_mkRat]

@[simp] theorem value_stored (d : Decimal) : d.stored.value = d.value := by
  unfold stored
  split
  · next hzero => exact (value_of_isZero hzero).symm
  · rfl

end Decimal

namespace Amount

@[simp] theorem value_ofDecimal (d : Decimal) : (ofDecimal d).value = d.value := by
  unfold ofDecimal
  split
  · next hzero =>
    rw [Decimal.value_of_isZero hzero]
    exact Rat.zero_mkRat _
  · rfl

@[simp] theorem value_add (a b : Amount) : (a + b).value = a.value + b.value := by
  have ha := mkRat_tenPow a.coefficient (Nat.le_max_left a.scale b.scale)
  have hb := mkRat_tenPow b.coefficient (Nat.le_max_right a.scale b.scale)
  calc (a + b).value = mkRat (_ + _) (tenPow (max a.scale b.scale)) := rfl
    _ = mkRat _ _ + mkRat _ _ := by simp only [Rat.mkRat_eq_divInt, Rat.add_divInt]
    _ = a.value + b.value := congrArg₂ (· + ·) ha hb

theorem scale_ofDecimal_le (d : Decimal) : (ofDecimal d).scale ≤ 28 := by
  unfold ofDecimal
  split
  · exact Nat.zero_le 28
  · exact d.scale_le

theorem scale_add_le {a b : Amount} {n : Nat} (ha : a.scale ≤ n) (hb : b.scale ≤ n) :
    (a + b).scale ≤ n :=
  Nat.max_le.mpr ⟨ha, hb⟩

/-- What fits a decimal is read as it is. -/
theorem toDecimal?_of_fits {a : Amount} (hcoefficient : a.coefficient.natAbs < coefficientLimit)
    (hscale : a.scale ≤ 28) : ∃ d, a.toDecimal? = some d ∧ d.value = a.value := by
  by_cases hzero : a.coefficient = 0
  · refine ⟨.zero, if_pos hzero, ?_⟩
    rw [value, hzero, Rat.zero_mkRat]
    exact Rat.zero_mkRat _
  · obtain ⟨d, hd⟩ : ∃ d, Decimal.ofParts? a.coefficient a.scale = some d := by
      rw [Decimal.ofParts?, Decimal.ofSigned?, dif_pos ⟨hcoefficient, hscale⟩]
      exact ⟨_, rfl⟩
    obtain ⟨hcoef, hsc⟩ := Decimal.coefficient_of_ofParts? hd
    refine ⟨d, ?_, ?_⟩
    · rw [toDecimal?, if_neg hzero, hd]
    · rw [Decimal.value, hcoef, hsc, value]

end Amount

end CardClub
