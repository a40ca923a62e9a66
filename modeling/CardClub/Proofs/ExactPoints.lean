import CardClub.Proofs.Constraints
import CardClub.Proofs.Rounding
import Mathlib.Algebra.Order.Field.Basic
import Mathlib.Algebra.Order.Ring.Rat
import Mathlib.Algebra.Ring.Int.Parity
import Mathlib.Tactic.FieldSimp
import Mathlib.Tactic.Linarith
import Mathlib.Tactic.Positivity
import Mathlib.Tactic.Ring

/-!
# Points and exact arithmetic

The points of a placement are an exact product, rounded. They are computed in two roundings, first
to the digits there is room for and then to a whole number. A product that loses digits keeps nine
of them behind the point unless it is too large for points, so the second rounding can go astray
only where the exact product is very close to the middle between two whole numbers, and then by one.
-/

namespace CardClub

/-- Whether a whole number is a fraction rounded: the nearest one, and of two the even one. -/
structure HalfEven (x : Rat) (k : Int) : Prop where
  near : |x - k| ≤ 1 / 2
  even : |x - k| = 1 / 2 → Even k

/-- Whether a fraction is in the middle between two whole numbers. -/
def Midway (x : Rat) : Prop := ∃ h : Int, x = h + 1 / 2

variable {x y : Rat} {j k r : Int} {m n d s : Nat}

theorem HalfEven.le (hk : HalfEven x k) (hr : HalfEven x r) : r ≤ k := by
  by_contra hlt
  rw [not_le] at hlt
  have hle : (k : Rat) + 1 ≤ r := by exact_mod_cast hlt
  have hbelow := (abs_le.mp hr.near).1
  have habove := (abs_le.mp hk.near).2
  -- the two are neighbours with the fraction in the middle, and cannot both be even
  have hx : x = k + 1 / 2 := by linarith
  have hnext : (r : Rat) = k + 1 := by linarith
  have hevenk := hk.even (by rw [hx]; norm_num)
  have hevenr := hr.even (by rw [hx, hnext]; norm_num)
  obtain rfl : r = k + 1 := by exact_mod_cast hnext
  exact Int.even_add_one.mp hevenr hevenk

theorem HalfEven.unique (hk : HalfEven x k) (hr : HalfEven x r) : k = r :=
  le_antisymm (hr.le hk) (hk.le hr)

theorem HalfEven.of_lt (h : |x - k| < 1 / 2) : HalfEven x k :=
  ⟨h.le, fun heq => absurd heq h.ne⟩

theorem natCast_div_eq (n : Nat) (hd : 0 < d) :
    (n : Rat) / d = (n / d : Nat) + ((n % d : Nat) : Rat) / d := by
  have hne : (d : Rat) ≠ 0 := by exact_mod_cast hd.ne'
  calc (n : Rat) / d = ((d * (n / d) + n % d : Nat) : Rat) / d := by rw [Nat.div_add_mod]
    _ = (n / d : Nat) + ((n % d : Nat) : Rat) / d := by
      rw [Nat.cast_add, Nat.cast_mul]
      field_simp

theorem halfEven_roundDiv (n : Nat) (hd : 0 < d) :
    HalfEven ((n : Rat) / d) (roundDiv n d : Nat) := by
  have hpos : (0 : Rat) < d := by exact_mod_cast hd
  have hless : ((n % d : Nat) : Rat) / d < 1 := by
    rw [div_lt_one hpos]
    exact_mod_cast Nat.mod_lt n hd
  have hnonneg : 0 ≤ ((n % d : Nat) : Rat) / d := by positivity
  rw [natCast_div_eq n hd]
  unfold roundDiv
  generalize n / d = q
  split
  · next hbelow =>
    have hhalf : ((n % d : Nat) : Rat) / d < 1 / 2 := by
      have hbelow : 2 * ((n % d : Nat) : Rat) < d := by exact_mod_cast hbelow
      rw [div_lt_iff₀ hpos]
      linarith
    refine .of_lt (abs_lt.mpr ⟨?_, ?_⟩) <;> push_cast <;> linarith
  · split
    · next habove =>
      have hhalf : 1 / 2 < ((n % d : Nat) : Rat) / d := by
        have habove : (d : Rat) < 2 * ((n % d : Nat) : Rat) := by exact_mod_cast habove
        rw [lt_div_iff₀ hpos]
        linarith
      refine .of_lt (abs_lt.mpr ⟨?_, ?_⟩) <;> push_cast <;> linarith
    · next hbelow habove =>
      have hhalf : ((n % d : Nat) : Rat) / d = 1 / 2 := by
        have htie : 2 * ((n % d : Nat) : Rat) = d := by exact_mod_cast (by omega : 2 * (n % d) = d)
        rw [div_eq_iff hpos.ne']
        linarith
      have heven : Even ((q + q % 2 : Nat) : Int) := by
        exact_mod_cast Nat.even_iff.mpr (by omega : (q + q % 2) % 2 = 0)
      have hbit : ((q % 2 : Nat) : Rat) ≤ 1 := by
        exact_mod_cast Nat.le_of_lt_succ (Nat.mod_lt q (by decide : 0 < 2))
      have hbit' : 0 ≤ ((q % 2 : Nat) : Rat) := by positivity
      rw [hhalf]
      refine ⟨?_, fun _ => heven⟩
      generalize q % 2 = bit at hbit hbit' ⊢
      push_cast
      rw [abs_le]
      constructor <;> linarith

/-! ## Rounding twice -/

theorem HalfEven.abs_sub_le_one (hx : HalfEven x r) (hy : HalfEven y k) (h : |x - y| < 1) :
    |k - r| ≤ 1 := by
  obtain ⟨hx₁, hx₂⟩ := abs_le.mp hx.near
  obtain ⟨hy₁, hy₂⟩ := abs_le.mp hy.near
  obtain ⟨h₁, h₂⟩ := abs_lt.mp h
  have hless : (k : Rat) < r + 2 := by linarith
  have hmore : (r : Rat) < k + 2 := by linarith
  have hless : k < r + 2 := by exact_mod_cast hless
  have hmore : r < k + 2 := by exact_mod_cast hmore
  rw [abs_le]
  constructor <;> omega

/-- Between two numbers that are rounded to different ones, there is the middle of two others. -/
theorem HalfEven.exists_midway (hx : HalfEven x r) (hy : HalfEven y k) (hne : k ≠ r) :
    ∃ h, Midway h ∧ |x - h| ≤ |x - y| := by
  obtain ⟨hx₁, hx₂⟩ := abs_le.mp hx.near
  obtain ⟨hy₁, hy₂⟩ := abs_le.mp hy.near
  rcases lt_or_gt_of_ne hne with hlt | hlt
  · have hle : (k : Rat) + 1 ≤ r := by exact_mod_cast hlt
    refine ⟨k + 1 / 2, ⟨k, rfl⟩, ?_⟩
    rw [abs_of_nonneg (by linarith : 0 ≤ x - (k + 1 / 2)), abs_of_nonneg (by linarith : 0 ≤ x - y)]
    linarith
  · have hle : (r : Rat) + 1 ≤ k := by exact_mod_cast hlt
    refine ⟨r + 1 / 2, ⟨r, rfl⟩, ?_⟩
    rw [abs_of_nonpos (by linarith : x - (r + 1 / 2) ≤ 0), abs_of_nonpos (by linarith : x - y ≤ 0)]
    linarith

theorem HalfEven.eq_of_int (hk : HalfEven (j : Rat) k) : k = j :=
  hk.unique ⟨by simp, by simp⟩

/-- With a fraction digit at least, the middle between two whole numbers is kept. -/
theorem Midway.eq_of_halfEven {t : Nat} (hx : Midway x) (hk : HalfEven (x * tenPow (t + 1)) k) :
    (k : Rat) / tenPow (t + 1) = x := by
  obtain ⟨h, rfl⟩ := hx
  have hpos : (0 : Rat) < tenPow (t + 1) := by exact_mod_cast tenPow_pos (t + 1)
  have hwhole : ((h : Rat) + 1 / 2) * tenPow (t + 1) = ((2 * h + 1) * 5 * tenPow t : Int) := by
    rw [tenPow_succ]
    push_cast
    ring
  rw [hwhole] at hk
  rw [hk.eq_of_int, ← hwhole]
  field_simp

namespace Decimal

variable {d : Decimal} {drop keep lost t : Nat}

theorem value_of_nonneg (h : d.isNegative = false) : d.value = d.magnitude / tenPow d.scale := by
  rw [value, coefficient_of_nonneg h, Rat.mkRat_eq_div, Int.cast_natCast]

theorem parts_of_ofParts? (h : ofParts? m s = some d) : d.magnitude = m ∧ d.scale = s := by
  obtain ⟨hcoef, hscale⟩ := coefficient_of_ofParts? h
  refine ⟨?_, hscale⟩
  rw [← natAbs_coefficient, hcoef, Int.natAbs_natCast]

/-- A number that is brought into range is rounded once, and a digit is dropped for want of room. -/
theorem fit_lost (h : fit false m drop keep = some d) :
    ∃ lost, d.scale + lost = drop + keep ∧ d.magnitude = roundDiv m (tenPow lost) ∧
      (lost = drop ∨ ∃ l, lost = l + 1 ∧ coefficientLimit ≤ roundDiv m (tenPow l)) := by
  induction keep generalizing drop with
  | zero =>
      obtain ⟨hmagnitude, hscale⟩ := parts_of_ofParts? h
      exact ⟨drop, by omega, hmagnitude, .inl rfl⟩
  | succ keep ih =>
      rw [fit] at h
      split at h
      · obtain ⟨hmagnitude, hscale⟩ := parts_of_ofParts? h
        exact ⟨drop, by omega, hmagnitude, .inl rfl⟩
      · next hbig =>
        obtain ⟨lost, hscale, hmagnitude, hlost⟩ := ih h
        refine ⟨lost, by omega, hmagnitude, .inr ?_⟩
        rcases hlost with rfl | hlost
        · exact ⟨drop, rfl, Nat.le_of_not_lt hbig⟩
        · exact hlost

theorem isNegative_of_fit (h : fit false m drop keep = some d) : d.isNegative = false := by
  rw [isNegative, coefficient, negative_of_fit h]
  exact decide_eq_false (Int.not_lt.mpr (Int.natCast_nonneg _))

theorem halfEven_roundWhole (h : fit false m drop keep = some d) :
    HalfEven d.value d.roundWhole := by
  rw [value_of_nonneg (isNegative_of_fit h), roundWhole, negative_of_fit h]
  exact halfEven_roundDiv d.magnitude (tenPow_pos d.scale)

theorem fit_whole (hm : m < coefficientLimit) (hs : s ≤ 28) :
    ∃ d, fit false (m * tenPow s) 0 s = some d ∧ d.roundWhole = m := by
  have hmap : (fit false (m * tenPow s) 0 (0 + s)).map roundWhole =
      (fit false m 0 0).map roundWhole := roundWhole_fit_tenPow s (by omega)
  rw [fit_of_lt hm, roundWhole_ofParts? hm (Nat.zero_le 28), tenPow_zero, roundDiv_one,
    Nat.zero_add] at hmap
  exact Option.map_eq_some_iff.mp hmap

theorem fit_of_le (hm : m < coefficientLimit) (hs : s ≤ 28) (h : n ≤ m * tenPow s) :
    ∃ d, fit false n 0 s = some d ∧ d.roundWhole ≤ m := by
  obtain ⟨e, he, hround⟩ := fit_whole hm hs
  exact hround ▸ roundWhole_fit_mono hs h he

theorem le_roundWhole (hm : m < coefficientLimit) (hs : s ≤ 28) (h : m * tenPow s ≤ n)
    (hd : fit false n 0 s = some d) : (m : Int) ≤ d.roundWhole := by
  obtain ⟨e, he, hround⟩ := fit_whole hm hs
  obtain ⟨e', he', hle⟩ := roundWhole_fit_mono hs h hd
  obtain rfl := Option.some.inj (he.symm.trans he')
  exact hround ▸ hle

theorem div_tenPow (m lost t : Nat) :
    (m : Rat) / tenPow lost = m / tenPow (t + lost) * tenPow t := by
  have hne : (tenPow t : Rat) ≠ 0 := by exact_mod_cast tenPow_ne_zero t
  rw [tenPow_add]
  push_cast
  field_simp

theorem tenPow_mono (h : s ≤ t) : (tenPow s : Rat) ≤ tenPow t := by
  exact_mod_cast Nat.pow_le_pow_right (by decide : 0 < 10) h

/-- A number that has lost a digit and is not too large for points has nine fraction digits left. -/
theorem nine_digits (hbig : coefficientLimit ≤ roundDiv m (tenPow lost))
    (hsmall : (m : Rat) / tenPow (t + (lost + 1)) ≤ 2 ^ 63) : 9 ≤ t := by
  by_contra hfew
  have hten : (tenPow (t + 1) : Rat) ≤ 10 ^ 9 :=
    (tenPow_mono (by omega : t + 1 ≤ 9)).trans_eq (by norm_num [tenPow])
  have hless : (m : Rat) / tenPow lost ≤ 2 ^ 63 * 10 ^ 9 := by
    rw [Nat.add_comm lost, ← Nat.add_assoc] at hsmall
    rw [div_tenPow m lost (t + 1)]
    exact mul_le_mul hsmall hten (by positivity) (by positivity)
  have hmore : (2 : Rat) ^ 96 ≤ (roundDiv m (tenPow lost) : Nat) := by exact_mod_cast hbig
  have hnear := (abs_le.mp (halfEven_roundDiv m (tenPow_pos lost)).near).1
  rw [Int.cast_natCast] at hnear
  linarith

/-- Dropping digits for want of room changes a number by half a unit of its last digit at most. -/
theorem abs_sub_value_le (hd : d.isNegative = false)
    (h : HalfEven (x * tenPow d.scale) (d.magnitude : Nat)) :
    |x - d.value| ≤ 1 / 2 / tenPow d.scale := by
  have hpos : (0 : Rat) < tenPow d.scale := by exact_mod_cast tenPow_pos d.scale
  have hsplit : x - d.value = (x * tenPow d.scale - (d.magnitude : Int)) / tenPow d.scale := by
    rw [value_of_nonneg hd, Int.cast_natCast]
    field_simp
  rw [hsplit, abs_div, abs_of_pos hpos]
  exact div_le_div_of_nonneg_right h.near hpos.le

/-- A number of points is the exact number rounded, unless that is close to the middle between two
whole numbers and has been rounded before. -/
theorem halfEven_or_close (h : fit false m 0 s = some d) (hsmall : d.roundWhole < 2 ^ 63) :
    HalfEven ((m : Rat) / tenPow s) d.roundWhole ∨
      ¬ Midway ((m : Rat) / tenPow s) ∧ |(m : Rat) / tenPow s - d.value| ≤ 1 / 2 / 10 ^ 9 := by
  obtain ⟨lost, hscale, hmagnitude, hlost⟩ := fit_lost h
  obtain rfl : d.scale + lost = s := by omega
  have hvalue := value_of_nonneg (isNegative_of_fit h)
  have hround := halfEven_roundWhole h
  have hfirst : HalfEven ((m : Rat) / tenPow (d.scale + lost) * tenPow d.scale)
      (d.magnitude : Nat) := by
    rw [← div_tenPow, hmagnitude]
    exact halfEven_roundDiv m (tenPow_pos lost)
  have hclose := abs_sub_value_le (isNegative_of_fit h) hfirst
  cases hdigits : d.scale with
  | zero =>
      -- without fraction digits, the second rounding changes nothing
      left
      rw [hdigits] at hfirst
      rw [roundWhole, negative_of_fit h, hdigits]
      simpa [signed] using hfirst
  | succ t =>
      rw [← hdigits]
      by_cases hmid : Midway ((m : Rat) / tenPow (d.scale + lost))
      · have hexact : d.value = (m : Rat) / tenPow (d.scale + lost) := by
          rw [hvalue]
          rw [hdigits] at hfirst hmid ⊢
          exact hmid.eq_of_halfEven hfirst
        exact .inl (hexact ▸ hround)
      · rcases hlost with rfl | ⟨l, rfl, hbig⟩
        · have hexact : d.value = (m : Rat) / tenPow (d.scale + 0) := by
            rw [hvalue, hmagnitude, tenPow_zero, roundDiv_one, Nat.add_zero]
          exact .inl (hexact ▸ hround)
        · refine .inr ⟨hmid, hclose.trans ?_⟩
          have hone : (1 : Rat) ≤ tenPow d.scale := by exact_mod_cast tenPow_pos d.scale
          have hhalf : (1 : Rat) / 2 / tenPow d.scale ≤ 1 / 2 := div_le_self (by norm_num) hone
          have hwhole : (d.roundWhole : Rat) + 1 ≤ 2 ^ 63 := by exact_mod_cast hsmall
          have hbound : (m : Rat) / tenPow (d.scale + (l + 1)) ≤ 2 ^ 63 := by
            have hx := (abs_le.mp hclose).2
            have hk := (abs_le.mp hround.near).2
            linarith
          have hten := tenPow_mono (nine_digits hbig hbound)
          have hnine : (tenPow 9 : Rat) = 10 ^ 9 := by norm_num [tenPow]
          rw [hnine] at hten
          exact div_le_div_of_nonneg_left (by norm_num) (by norm_num) hten

end Decimal

/-! ## The points of a placement -/

theorem Decimal.isNegative_iff {d : Decimal} : d.isNegative = true ↔ d.value < 0 := by
  constructor
  · intro h
    have hcoef : (d.coefficient : Rat) < 0 := by exact_mod_cast of_decide_eq_true h
    rw [value, Rat.mkRat_eq_div]
    exact div_neg_of_neg_of_pos hcoef (by exact_mod_cast tenPow_pos d.scale)
  · intro h
    by_contra hneg
    exact absurd (value_nonneg (eq_false_of_ne_true hneg)) (not_le.mpr h)

/-- The points of a placement before they are rounded. -/
def exactPoints (size placement : Nat) (multiplier : Decimal) : Rat :=
  multiplier.value * (10 + 10 * ((size : Rat) - placement))

variable {size placement : Nat} {multiplier : Decimal}

theorem exactPoints_eq (hneg : multiplier.isNegative = false) (hle : placement ≤ size) :
    exactPoints size placement multiplier =
      (multiplier.magnitude * basePoints size placement : Nat) / tenPow multiplier.scale := by
  have hbase : (basePoints size placement : Rat) = 10 + 10 * ((size : Rat) - placement) := by
    rw [← Nat.cast_sub hle, basePoints, participationPoints, pointsPerPlayerOutlasted]
    push_cast
    ring
  rw [exactPoints, Decimal.value_of_nonneg hneg, Nat.cast_mul, hbase]
  ring

/-- The points before the multiplier have 64 bits where the field can be counted. -/
theorem basePoints_lt (hsize : size < countLimit) : basePoints size placement < 2 ^ 64 := by
  have hlimit : countLimit = 2 ^ 32 := rfl
  rw [basePoints, participationPoints, pointsPerPlayerOutlasted]
  omega

/-- A placement that is of the field outlasts some of it, and its points before the multiplier do
not overflow unless they have more than 64 bits. -/
theorem overflow_of_error (hvalid : ¬ (placement = 0 ∨ size < placement))
    (hneg : multiplier.isNegative = false) {cause : RankingError}
    (h : awardPoints size placement multiplier = .error cause) :
    ∃ step, cause = .overflow step ∧ step ≠ .playersOutlasted ∧
      (basePoints size placement < 2 ^ 64 → step ≠ .basePoints) := by
  rw [awardPoints_of_nonneg hneg, if_neg hvalid] at h
  split at h
  · next hwide =>
    have hlimit : wideLimit = 2 ^ 64 := rfl
    exact ⟨_, (Except.error.inj h).symm, by decide, fun hsmall => absurd hsmall (by omega)⟩
  · split at h
    · exact ⟨_, (Except.error.inj h).symm, by decide, fun _ => by decide⟩
    · split at h
      · cases h
      · exact ⟨_, (Except.error.inj h).symm, by decide, fun _ => by decide⟩

theorem ok_or_overflow (hvalid : ¬ (placement = 0 ∨ size < placement))
    (hneg : multiplier.isNegative = false) :
    (∃ k, awardPoints size placement multiplier = .ok k) ∨
      ∃ step, awardPoints size placement multiplier = .error (.overflow step) := by
  cases hout : awardPoints size placement multiplier with
  | ok k => exact .inl ⟨k, rfl⟩
  | error cause =>
      obtain ⟨step, rfl, -⟩ := overflow_of_error hvalid hneg hout
      exact .inr ⟨step, rfl⟩

theorem fitsPoints_of_nonneg (hk : 0 ≤ k) : fitsPoints k = true ↔ k < 2 ^ 63 := by
  have hlimit : (pointsLimit : Int) = 2 ^ 63 := rfl
  rw [fitsPoints_iff, hlimit]
  omega

/-- There are points wherever the exact number of points has 63 bits. -/
theorem awardPoints_of_le (hpos : placement ≠ 0) (hle : placement ≤ size)
    (hneg : multiplier.isNegative = false) (hbase : basePoints size placement < 2 ^ 64)
    (hx : exactPoints size placement multiplier ≤ 2 ^ 63 - 1) :
    ∃ k, awardPoints size placement multiplier = .ok k := by
  have hscale : (0 : Rat) < tenPow multiplier.scale := by exact_mod_cast tenPow_pos _
  have hproduct : multiplier.magnitude * basePoints size placement ≤
      (2 ^ 63 - 1) * tenPow multiplier.scale := by
    have hlimit : ((2 ^ 63 - 1 : Nat) : Rat) = 2 ^ 63 - 1 := by norm_num
    rw [exactPoints_eq hneg hle, div_le_iff₀ hscale, ← hlimit] at hx
    exact_mod_cast hx
  obtain ⟨d, hd, hround⟩ := Decimal.fit_of_le (by decide) multiplier.scale_le hproduct
  have hnonneg : 0 ≤ d.roundWhole := by
    rw [Decimal.roundWhole, Decimal.negative_of_fit hd]
    exact Int.natCast_nonneg _
  refine ⟨d.roundWhole, awardPoints_ok.mpr ⟨hpos, hle, hneg, hbase, ?_, ?_⟩⟩
  · rw [Decimal.times?_of_nonneg hneg, hd]
    rfl
  · rw [fitsPoints_of_nonneg hnonneg]
    exact Int.lt_of_le_of_lt hround (by norm_num)

theorem exactPoints_lt_of_ok (h : awardPoints size placement multiplier = .ok k) :
    exactPoints size placement multiplier < 2 ^ 63 := by
  obtain ⟨-, hle, hneg, -, hround, hfits⟩ := awardPoints_ok.mp h
  have hscale : (0 : Rat) < tenPow multiplier.scale := by exact_mod_cast tenPow_pos _
  rw [Decimal.times?_of_nonneg hneg] at hround
  obtain ⟨d, hd, rfl⟩ := Option.map_eq_some_iff.mp hround
  rw [fitsPoints_of_nonneg (awardPoints_nonneg h)] at hfits
  rw [exactPoints_eq hneg hle, div_lt_iff₀ hscale]
  by_contra hlarge
  have hproduct : 2 ^ 63 * tenPow multiplier.scale ≤
      multiplier.magnitude * basePoints size placement := by
    exact_mod_cast not_lt.mp hlarge
  have hpoints := Decimal.le_roundWhole (by decide) multiplier.scale_le hproduct hd
  rw [Nat.cast_pow, Nat.cast_ofNat] at hpoints
  omega

/-- Points are the exact number of points rounded, or next to that where it is close to the middle
between two whole numbers. -/
theorem rounded_of_ok (h : awardPoints size placement multiplier = .ok k) :
    ∃ r, HalfEven (exactPoints size placement multiplier) r ∧
      (k = r ∨ ¬ Midway (exactPoints size placement multiplier) ∧
        (∃ y, Midway y ∧ |exactPoints size placement multiplier - y| ≤ 1 / 10 ^ 9) ∧
        |k - r| ≤ 1) := by
  obtain ⟨-, hle, hneg, -, hround, hfits⟩ := awardPoints_ok.mp h
  rw [Decimal.times?_of_nonneg hneg] at hround
  obtain ⟨d, hd, rfl⟩ := Option.map_eq_some_iff.mp hround
  rw [fitsPoints_of_nonneg (awardPoints_nonneg h)] at hfits
  rw [exactPoints_eq hneg hle]
  rcases Decimal.halfEven_or_close hd hfits with hexact | ⟨hmid, hclose⟩
  · exact ⟨d.roundWhole, hexact, .inl rfl⟩
  · have hr := halfEven_roundDiv (multiplier.magnitude * basePoints size placement)
      (tenPow_pos multiplier.scale)
    have hk := Decimal.halfEven_roundWhole hd
    refine ⟨_, hr, or_iff_not_imp_left.mpr fun hne => ⟨hmid, ?_, ?_⟩⟩
    · obtain ⟨y, hy, hnear⟩ := hr.exists_midway hk hne
      exact ⟨y, hy, (hnear.trans hclose).trans (by norm_num)⟩
    · exact hr.abs_sub_le_one hk (hclose.trans_lt (by norm_num))

/-- Points are refused for a placement outside of the field and for a negative multiplier. Otherwise
they are the exact number of points, rounded with ties to even; but where that number is within a
billionth of the middle between two whole numbers and not there, they may be one off. They overflow
if that number is 2^63 or more, and do not if it is below 2^63 by one or more; the players outlasted
never overflow, and the points before the multiplier do not as long as they have 64 bits, which they
have where the field can be counted. -/
theorem points_against_exact (size placement : Nat) (multiplier : Decimal) :
    let x := exactPoints size placement multiplier
    let outcome := awardPoints size placement multiplier
    (∀ p n, outcome = .error (.invalidPlacement p n) ↔
      (placement = 0 ∨ size < placement) ∧ p = placement ∧ n = size) ∧
    (∀ m, outcome = .error (.negativeMultiplier m) ↔
      ¬ (placement = 0 ∨ size < placement) ∧ multiplier.value < 0 ∧ m = multiplier) ∧
    (¬ (placement = 0 ∨ size < placement) → 0 ≤ multiplier.value →
      ((∃ k, outcome = .ok k) ∨ ∃ step, outcome = .error (.overflow step)) ∧
      (2 ^ 63 ≤ x → ∃ step, outcome = .error (.overflow step))) ∧
    (∀ step, outcome = .error (.overflow step) → step ≠ .playersOutlasted ∧
      (basePoints size placement < 2 ^ 64 → 2 ^ 63 - 1 < x ∧ step ≠ .basePoints)) ∧
    (size < countLimit → basePoints size placement < 2 ^ 64) ∧
    ∀ k, outcome = .ok k → ∃ r, HalfEven x r ∧
      (k = r ∨ ¬ Midway x ∧ (∃ y, Midway y ∧ |x - y| ≤ 1 / 10 ^ 9) ∧ |k - r| ≤ 1) := by
  intro x outcome
  have hbase : size < countLimit → basePoints size placement < 2 ^ 64 := basePoints_lt
  by_cases hinvalid : placement = 0 ∨ size < placement
  · have hout : outcome = .error (.invalidPlacement placement size) := if_pos hinvalid
    simpa [hout, hinvalid, eq_comm] using hbase
  cases hneg : multiplier.isNegative with
  | true =>
      have hout : outcome = .error (.negativeMultiplier multiplier) := by
        rw [show outcome = _ from if_neg hinvalid, hneg]
        rfl
      have hvalue := Decimal.isNegative_iff.mp hneg
      simpa [hout, hinvalid, hvalue, eq_comm] using hbase
  | false =>
      have hvalue : ¬ multiplier.value < 0 := by
        rw [← Decimal.isNegative_iff, hneg]
        exact Bool.false_ne_true
      obtain ⟨hpos, hle⟩ := not_or.mp hinvalid
      have hor : (∃ k, outcome = .ok k) ∨ ∃ step, outcome = .error (.overflow step) :=
        ok_or_overflow hinvalid hneg
      refine ⟨fun p n => ?_, fun m => ?_, fun _ _ => ⟨hor, fun hlarge => ?_⟩,
        fun step hstep => ?_, hbase, fun k => rounded_of_ok⟩
      · refine iff_of_false (fun h => ?_) fun h => hinvalid h.1
        obtain ⟨step, hstep, -⟩ := overflow_of_error hinvalid hneg h
        cases hstep
      · refine iff_of_false (fun h => ?_) fun h => hvalue h.2.1
        obtain ⟨step, hstep, -⟩ := overflow_of_error hinvalid hneg h
        cases hstep
      · refine hor.resolve_left fun ⟨k, hk⟩ => ?_
        exact absurd (exactPoints_lt_of_ok hk) (not_lt.mpr hlarge)
      · obtain ⟨_, hsame, houtlasted, hwide⟩ := overflow_of_error hinvalid hneg hstep
        obtain rfl := RankingError.overflow.inj hsame
        refine ⟨houtlasted, fun hsmall => ⟨lt_of_not_ge fun hx => ?_, hwide hsmall⟩⟩
        obtain ⟨k, hk⟩ := awardPoints_of_le hpos (Nat.le_of_not_lt hle) hneg hsmall hx
        cases hk.symm.trans hstep

/-- The exact number is a little above 100.5; the product has room for 26 fraction digits, all of
them zeros behind the five. -/
example : awardPoints 2 1 ⟨false, 50250000000000000000000000001, 28, by decide, by decide⟩ =
    .ok 100 := by
  decide +kernel

end CardClub
