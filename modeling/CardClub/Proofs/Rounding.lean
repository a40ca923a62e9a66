import CardClub.Proofs.Award

/-!
# Rounding keeps the order

A product is rounded twice: first to the digits there is room for, then to a whole number. A smaller
product may keep more digits than a larger one, so the two are rounded on different grids. They
still come out in order, because a number that loses a digit for want of room is, with one digit
less, at least as large as everything that fits. A better placement in a field thus never earns less,
and what can be awarded in a field can be awarded in each smaller one.
-/

namespace CardClub

theorem div_le_roundDiv (n d : Nat) : n / d ≤ roundDiv n d := by
  unfold roundDiv
  split
  · omega
  · split <;> omega

theorem roundDiv_le_succ (n d : Nat) : roundDiv n d ≤ n / d + 1 := by
  unfold roundDiv
  split
  · omega
  · split <;> omega

theorem roundDiv_mono {m n : Nat} (d : Nat) (h : m ≤ n) : roundDiv m d ≤ roundDiv n d := by
  have hdiv : m / d ≤ n / d := Nat.div_le_div_right h
  rcases Nat.lt_or_eq_of_le hdiv with hlt | heq
  · have hm := roundDiv_le_succ m d
    have hn := div_le_roundDiv n d
    omega
  · have hmod : m % d ≤ n % d := by
      have hm := Nat.div_add_mod m d
      have hn := Nat.div_add_mod n d
      rw [← heq] at hn
      omega
    simp only [roundDiv, ← heq]
    repeat' split
    all_goals omega

namespace Decimal

/-- The largest magnitude, rounded to one digit less. -/
def shortened : Nat := roundDiv (coefficientLimit - 1) 10

theorem le_tenfold_shortened : coefficientLimit ≤ shortened * 10 := by
  decide

theorem shortened_lt : shortened < coefficientLimit := by
  decide

/-- What does not fit is, rounded to one digit less, at least as large as what fits. -/
theorem shortened_le {m drop : Nat} (h : coefficientLimit ≤ roundDiv m (tenPow drop)) :
    shortened ≤ roundDiv m (tenPow (drop + 1)) := by
  have hquotient : coefficientLimit - 1 ≤ m / tenPow drop :=
    Nat.sub_le_of_le_add (Nat.le_trans h (roundDiv_le_succ m (tenPow drop)))
  have hproduct : (coefficientLimit - 1) * tenPow drop ≤ m :=
    Nat.le_trans (Nat.mul_le_mul_right _ hquotient) (Nat.div_mul_le_self m _)
  calc shortened = roundDiv ((coefficientLimit - 1) * tenPow drop) (10 * tenPow drop) :=
        (roundDiv_mul_right _ _ (tenPow_pos drop)).symm
    _ ≤ roundDiv m (10 * tenPow drop) := roundDiv_mono _ hproduct
    _ = roundDiv m (tenPow (drop + 1)) := by rw [tenPow_succ, Nat.mul_comm]

variable {m n drop keep : Nat} {d e : Decimal}

theorem ofParts?_natCast (hm : m < coefficientLimit) (hkeep : keep ≤ 28) :
    ∃ d, ofParts? m keep = some d ∧ d.roundWhole = (roundDiv m (tenPow keep) : Int) := by
  obtain ⟨d, hd, hround⟩ := Option.map_eq_some_iff.mp (roundWhole_ofParts? hm hkeep)
  exact ⟨d, hd, hround⟩

theorem roundDiv_lt_of_fit (h : fit false n drop 0 = some e) :
    roundDiv n (tenPow drop) < coefficientLimit := by
  rw [fit, ofParts?, ofSigned?] at h
  split at h
  · next hparts => simpa using hparts.1
  · cases h

/-- Where rounding to the room there is begins with a number, it ends with one at least as large. -/
theorem le_roundWhole_fit (hkeep : keep ≤ 28) (hm : m ≤ roundDiv n (tenPow drop))
    (hlt : m < coefficientLimit) (h : fit false n drop keep = some e) :
    (roundDiv m (tenPow keep) : Int) ≤ e.roundWhole := by
  induction keep generalizing m drop with
  | zero =>
      have hfits := roundDiv_lt_of_fit h
      obtain ⟨d, hd, hround⟩ := ofParts?_natCast hfits hkeep
      obtain rfl : d = e := Option.some.inj (hd.symm.trans h)
      rw [hround]
      exact_mod_cast roundDiv_mono _ hm
  | succ keep ih =>
      rw [fit] at h
      split at h
      · next hfits =>
        obtain ⟨d, hd, hround⟩ := ofParts?_natCast hfits hkeep
        obtain rfl : d = e := Option.some.inj (hd.symm.trans h)
        rw [hround]
        exact_mod_cast roundDiv_mono _ hm
      · next hbig =>
        -- the larger number loses a digit, the smaller one stays below ten times what is left of it
        have hless := ih (by omega) (shortened_le (Nat.le_of_not_lt hbig)) shortened_lt h
        have hten := le_tenfold_shortened
        have hmono : roundDiv m (tenPow (keep + 1)) ≤ roundDiv (shortened * 10) (tenPow (keep + 1)) :=
          roundDiv_mono _ (by omega)
        rw [tenPow_succ, roundDiv_mul_right _ _ (by decide : 0 < 10)] at hmono
        rw [tenPow_succ]
        omega

/-- If a number has room, so has every smaller one, and both round to whole numbers in order. -/
theorem roundWhole_fit_mono (hkeep : keep ≤ 28) (hmn : m ≤ n)
    (h : fit false n drop keep = some e) :
    ∃ d, fit false m drop keep = some d ∧ d.roundWhole ≤ e.roundWhole := by
  have hmono := roundDiv_mono (tenPow drop) hmn
  induction keep generalizing drop with
  | zero =>
      have hfits : roundDiv m (tenPow drop) < coefficientLimit :=
        Nat.lt_of_le_of_lt hmono (roundDiv_lt_of_fit h)
      obtain ⟨d, hd, hround⟩ := ofParts?_natCast hfits hkeep
      have hle := le_roundWhole_fit hkeep hmono hfits h
      exact ⟨d, hd, hround ▸ hle⟩
  | succ keep ih =>
      by_cases hfits : roundDiv m (tenPow drop) < coefficientLimit
      · obtain ⟨d, hd, hround⟩ := ofParts?_natCast hfits hkeep
        have hle := le_roundWhole_fit hkeep hmono hfits h
        refine ⟨d, ?_, hround ▸ hle⟩
        rw [fit, if_pos hfits]
        exact hd
      · have hbig : ¬ roundDiv n (tenPow drop) < coefficientLimit := by omega
        rw [fit, if_neg hbig] at h
        rw [fit, if_neg hfits]
        exact ih (by omega) h (roundDiv_mono _ hmn)

/-- A smaller number has, for a smaller factor, a product wherever the larger one has one, and the
products round to whole numbers in order. -/
theorem roundWhole_times_mono {a b : Decimal} {scale : Nat} (ha : a.isNegative = false)
    (hb : b.isNegative = false) (has : a.scale ≤ scale) (hbs : b.scale ≤ scale)
    (hscale : scale ≤ 28) (hle : a.digitsAt scale ≤ b.digitsAt scale) (hmn : m ≤ n)
    (h : b.times? n = some e) : ∃ d, a.times? m = some d ∧ d.roundWhole ≤ e.roundWhole := by
  have hround : (b.times? n).map roundWhole = some e.roundWhole := by
    rw [h, Option.map_some]
  rw [roundWhole_times hb hbs hscale] at hround
  obtain ⟨e', he', hsame⟩ := Option.map_eq_some_iff.mp hround
  obtain ⟨d', hd', hless⟩ := roundWhole_fit_mono hscale (Nat.mul_le_mul hle hmn) he'
  have hfit : (a.times? m).map roundWhole = some d'.roundWhole := by
    rw [roundWhole_times ha has hscale, hd', Option.map_some]
  obtain ⟨d, hd, hsame'⟩ := Option.map_eq_some_iff.mp hfit
  exact ⟨d, hd, by rw [hsame', ← hsame]; exact hless⟩

end Decimal

/-! ## Awards in order -/

variable {size size' placement placement' : Nat} {multiplier multiplier' : Decimal} {n : Int}

/-- What is awarded for some players outlasted and some multiplier is awarded, or less, for fewer of
them and a smaller multiplier. -/
theorem awardPoints_mono_digitsAt {scale : Nat} (hpos : placement' ≠ 0) (hle : placement' ≤ size')
    (hfewer : size' - placement' ≤ size - placement) (hneg' : multiplier'.isNegative = false)
    (hs : multiplier.scale ≤ scale) (hs' : multiplier'.scale ≤ scale) (hscale : scale ≤ 28)
    (hless : multiplier'.digitsAt scale ≤ multiplier.digitsAt scale)
    (h : awardPoints size placement multiplier = .ok n) :
    ∃ n', awardPoints size' placement' multiplier' = .ok n' ∧ n' ≤ n := by
  obtain ⟨-, -, hneg, hwide, hround, hfits⟩ := awardPoints_ok.mp h
  obtain ⟨e, he, rfl⟩ := Option.map_eq_some_iff.mp hround
  have hbase : basePoints size' placement' ≤ basePoints size placement := by
    unfold basePoints
    exact Nat.add_le_add_right (Nat.mul_le_mul_left _ hfewer) _
  obtain ⟨d, hd, hround⟩ :=
    Decimal.roundWhole_times_mono hneg' hneg hs' hs hscale hless hbase he
  have hnonneg : 0 ≤ d.roundWhole := by
    rw [Decimal.times?_of_nonneg hneg'] at hd
    rw [Decimal.roundWhole, Decimal.negative_of_fit hd]
    exact Int.natCast_nonneg _
  refine ⟨d.roundWhole, awardPoints_ok.mpr
    ⟨hpos, hle, hneg', Nat.lt_of_le_of_lt hbase hwide, ?_, ?_⟩, hround⟩
  · rw [hd, Option.map_some]
  · rw [fitsPoints_iff] at hfits ⊢
    omega

theorem awardPoints_mono (hpos : placement' ≠ 0) (hle : placement' ≤ size')
    (hfewer : size' - placement' ≤ size - placement)
    (h : awardPoints size placement multiplier = .ok n) :
    ∃ n', awardPoints size' placement' multiplier = .ok n' ∧ n' ≤ n :=
  awardPoints_mono_digitsAt hpos hle hfewer (awardPoints_ok.mp h).2.2.1 (Nat.le_refl _)
    (Nat.le_refl _) multiplier.scale_le (Nat.le_refl _) h

end CardClub
