import CardClub.Standings

/-!
# Awards

An award depends on the value of the multiplier only, not on the form in which the multiplier is
written, and it is never below zero. A plan that succeeds gives each member of the field, in order,
the award of its placement; a reversal debits the awards of the placements that are recorded.
-/

namespace CardClub

theorem tenPow_pos (n : Nat) : 0 < tenPow n := Nat.pow_pos (by decide)

theorem tenPow_add (m n : Nat) : tenPow (m + n) = tenPow m * tenPow n := Nat.pow_add 10 m n

theorem roundDiv_mul_right (n d : Nat) {k : Nat} (hk : 0 < k) :
    roundDiv (n * k) (d * k) = roundDiv n d := by
  have hdiv : n * k / (d * k) = n / d := Nat.mul_div_mul_right n d hk
  have hmod : n * k % (d * k) = n % d * k := Nat.mul_mod_mul_right k n d
  have hlt : 2 * (n % d * k) < d * k ↔ 2 * (n % d) < d := by
    rw [← Nat.mul_assoc]
    exact Nat.mul_lt_mul_right hk
  have hgt : d * k < 2 * (n % d * k) ↔ d < 2 * (n % d) := by
    rw [← Nat.mul_assoc]
    exact Nat.mul_lt_mul_right hk
  simp only [roundDiv, hdiv, hmod, hlt, hgt]

namespace Decimal

/-! ## Products with a whole number -/

theorem fit_of_lt {m keep : Nat} (h : m < coefficientLimit) :
    fit false m 0 keep = ofParts? m keep := by
  cases keep <;> simp [fit, signed, h]

theorem fit_tenfold_drop (m drop keep : Nat) :
    fit false (m * 10) (drop + 1) keep = fit false m drop keep := by
  induction keep generalizing drop with
  | zero => simp only [fit, tenPow_succ, roundDiv_mul_right _ _ (by decide : 0 < 10)]
  | succ keep ih => simp only [fit, tenPow_succ, roundDiv_mul_right _ _ (by decide : 0 < 10), ih]

theorem roundWhole_ofParts? {m scale : Nat} (hm : m < coefficientLimit) (hscale : scale ≤ 28) :
    (ofParts? m scale).map roundWhole = some (roundDiv m (tenPow scale) : Int) := by
  have hneg : ¬ (m : Int) < 0 := by omega
  simp [ofParts?, ofSigned?, hm, hscale, roundWhole, signed, hneg]

theorem roundWhole_fit_tenfold {m keep : Nat} (hkeep : keep + 1 ≤ 28) :
    (fit false (m * 10) 0 (keep + 1)).map roundWhole = (fit false m 0 keep).map roundWhole := by
  by_cases hlt : m * 10 < coefficientLimit
  · have hm : m < coefficientLimit := by omega
    rw [fit_of_lt hlt, fit_of_lt hm, roundWhole_ofParts? hlt hkeep,
      roundWhole_ofParts? hm (by omega), tenPow_succ, roundDiv_mul_right _ _ (by decide : 0 < 10)]
  · rw [fit, tenPow_zero, roundDiv_one, if_neg hlt, fit_tenfold_drop]

theorem roundWhole_fit_tenPow {m keep : Nat} (j : Nat) (hkeep : keep + j ≤ 28) :
    (fit false (m * tenPow j) 0 (keep + j)).map roundWhole =
    (fit false m 0 keep).map roundWhole := by
  induction j with
  | zero => simp
  | succ j ih =>
      rw [tenPow_succ, ← Nat.mul_assoc, ← Nat.add_assoc, roundWhole_fit_tenfold (by omega)]
      exact ih (by omega)

theorem negative_of_fit {m drop keep : Nat} {d : Decimal} (h : fit false m drop keep = some d) :
    d.negative = false := by
  have hparts {n scale : Nat} (h : ofParts? n scale = some d) : d.negative = false := by
    rw [ofParts?, ofSigned?] at h
    split at h
    · obtain rfl := Option.some.inj h
      simp
    · cases h
  induction keep generalizing drop with
  | zero => exact hparts h
  | succ keep ih =>
      rw [fit] at h
      split at h
      · exact hparts h
      · exact ih h

theorem coefficient_of_nonneg {d : Decimal} (h : d.isNegative = false) :
    d.coefficient = d.magnitude := by
  have hle : ¬ d.coefficient < 0 := of_decide_eq_false h
  rw [← natAbs_coefficient]
  omega

theorem times?_of_nonneg {d : Decimal} (h : d.isNegative = false) (n : Nat) :
    d.times? n = fit false (d.magnitude * n) 0 d.scale := by
  have hscale := d.scale_le
  have hneg : ¬ (d.magnitude : Int) * n < 0 :=
    Int.not_lt.mpr (Int.mul_nonneg (Int.natCast_nonneg _) (Int.natCast_nonneg _))
  rw [times?, ofExact?, coefficient_of_nonneg h, decide_eq_false hneg, Nat.min_eq_left hscale,
    Nat.sub_eq_zero_of_le hscale]
  rfl

theorem sameValue_comm (a b : Decimal) : a.sameValue b = b.sameValue a := Bool.beq_comm

theorem sameValue_self (a : Decimal) : a.sameValue a = true := by
  simp [sameValue]

theorem isNegative_congr {a b : Decimal} (h : a.sameValue b = true) :
    a.isNegative = b.isNegative := by
  have heq : a.coefficient * tenPow b.scale = b.coefficient * tenPow a.scale := by
    simpa [sameValue] using h
  have hsign (n : Int) (k : Nat) : n * tenPow k < 0 ↔ n < 0 := by
    have hk : (0 : Int) < tenPow k := by exact_mod_cast tenPow_pos k
    exact ⟨fun hn => Int.neg_of_mul_neg_left hn hk, fun hn => Int.mul_neg_of_neg_of_pos hn hk⟩
  have hiff : a.coefficient < 0 ↔ b.coefficient < 0 := by
    rw [← hsign _ b.scale, heq, hsign]
  simp only [isNegative, hiff]

/-- The digits of a decimal when it is written with some number of fraction digits. -/
def digitsAt (d : Decimal) (scale : Nat) : Nat := d.magnitude * tenPow (scale - d.scale)

theorem digitsAt_mul {d : Decimal} {scale : Nat} (h : d.scale ≤ scale) :
    d.digitsAt scale * tenPow d.scale = d.magnitude * tenPow scale := by
  rw [digitsAt, Nat.mul_assoc, ← tenPow_add, Nat.sub_add_cancel h]

/-- A product rounds to the same whole number when it is made of more fraction digits. -/
theorem roundWhole_times {d : Decimal} {scale : Nat} (hneg : d.isNegative = false)
    (hle : d.scale ≤ scale) (hscale : scale ≤ 28) (n : Nat) :
    (d.times? n).map roundWhole = (fit false (d.digitsAt scale * n) 0 scale).map roundWhole := by
  obtain ⟨j, rfl⟩ := Nat.exists_eq_add_of_le hle
  rw [digitsAt, Nat.add_sub_cancel_left, Nat.mul_right_comm, roundWhole_fit_tenPow j hscale,
    times?_of_nonneg hneg]

theorem digitsAt_congr {a b : Decimal} {scale : Nat} (h : a.sameValue b = true)
    (hneg : a.isNegative = false) (ha : a.scale ≤ scale) (hb : b.scale ≤ scale) :
    a.digitsAt scale = b.digitsAt scale := by
  have hcross : a.magnitude * tenPow b.scale = b.magnitude * tenPow a.scale := by
    have hint : a.coefficient * tenPow b.scale = b.coefficient * tenPow a.scale := by
      simpa [sameValue] using h
    rw [coefficient_of_nonneg hneg, coefficient_of_nonneg (isNegative_congr h ▸ hneg)] at hint
    exact_mod_cast hint
  apply Nat.eq_of_mul_eq_mul_right (Nat.mul_pos (tenPow_pos a.scale) (tenPow_pos b.scale))
  calc a.digitsAt scale * (tenPow a.scale * tenPow b.scale) =
        a.magnitude * tenPow b.scale * tenPow scale := by
        rw [← Nat.mul_assoc, digitsAt_mul ha, Nat.mul_right_comm]
    _ = b.magnitude * tenPow a.scale * tenPow scale := by rw [hcross]
    _ = b.digitsAt scale * (tenPow a.scale * tenPow b.scale) := by
        rw [Nat.mul_comm (tenPow a.scale), ← Nat.mul_assoc, digitsAt_mul hb, Nat.mul_right_comm]

/-- Products of equal numbers round to the same whole number, whatever the scales. -/
theorem roundWhole_times_congr {a b : Decimal} (h : a.sameValue b = true)
    (hneg : a.isNegative = false) (n : Nat) :
    (a.times? n).map roundWhole = (b.times? n).map roundWhole := by
  have hmax : max a.scale b.scale ≤ 28 := Nat.max_le.mpr ⟨a.scale_le, b.scale_le⟩
  have ha : a.scale ≤ max a.scale b.scale := Nat.le_max_left ..
  have hb : b.scale ≤ max a.scale b.scale := Nat.le_max_right ..
  rw [roundWhole_times hneg ha hmax, roundWhole_times (isNegative_congr h ▸ hneg) hb hmax,
    digitsAt_congr h hneg ha hb]

end Decimal

/-! ## Points of a placement -/

variable {fieldSize placement : Nat} {multiplier a b : Decimal} {n : Int}

/-- Where a placement is of a field and no multiplier is negative, only the range of numbers is in
the way of points, step by step. -/
theorem awardPoints_of_nonneg (hneg : multiplier.isNegative = false) :
    awardPoints fieldSize placement multiplier =
      if placement = 0 ∨ fieldSize < placement then .error (.invalidPlacement placement fieldSize)
      else if wideLimit ≤ basePoints fieldSize placement then .error (.overflow .basePoints)
      else
        match (multiplier.times? (basePoints fieldSize placement)).map Decimal.roundWhole with
        | none => .error (.overflow .scaledPoints)
        | some n => if fitsPoints n then .ok n else .error (.overflow .wholePoints) := by
  rw [awardPoints, hneg, if_neg Bool.false_ne_true]
  split
  · rfl
  · next hrange =>
    rw [outlasted?, if_pos (Nat.le_of_not_lt fun h => hrange (.inr h))]
    dsimp only
    rw [pointsFor?_outlasted, wide?]
    by_cases hwide : basePoints fieldSize placement < wideLimit
    · rw [if_pos hwide, if_neg (Nat.not_le.mpr hwide)]
      dsimp only
      cases multiplier.times? (basePoints fieldSize placement) <;> rfl
    · rw [if_neg hwide, if_pos (Nat.le_of_not_lt hwide)]

theorem awardPoints_ok :
    awardPoints fieldSize placement multiplier = .ok n ↔
      placement ≠ 0 ∧ placement ≤ fieldSize ∧ multiplier.isNegative = false ∧
        basePoints fieldSize placement < wideLimit ∧
        (multiplier.times? (basePoints fieldSize placement)).map Decimal.roundWhole = some n ∧
        fitsPoints n = true := by
  cases hneg : multiplier.isNegative with
  | true =>
      unfold awardPoints
      rw [hneg]
      split <;> simp
  | false =>
      rw [awardPoints_of_nonneg hneg]
      split
      · next hbad => simp; omega
      · next hrange =>
        simp only [not_or, Nat.not_lt] at hrange
        simp only [ne_eq, hrange, not_false_eq_true, true_and]
        split
        · next hwide => simp [Nat.not_lt.mpr hwide]
        · next hwide =>
          simp only [Nat.not_le.mp hwide, true_and]
          cases (multiplier.times? (basePoints fieldSize placement)).map Decimal.roundWhole with
          | none => simp
          | some m =>
              dsimp only
              split
              · next hfits =>
                simp only [Except.ok.injEq, Option.some.injEq]
                exact ⟨fun h => ⟨h, h ▸ hfits⟩, fun h => h.1⟩
              · next hfits =>
                refine iff_of_false (fun h => by cases h) fun h => hfits ?_
                rw [Option.some.inj h.1]
                exact h.2

theorem awardPoints_fits (h : awardPoints fieldSize placement multiplier = .ok n) :
    fitsPoints n = true :=
  (awardPoints_ok.mp h).2.2.2.2.2

theorem awardPoints_nonneg (h : awardPoints fieldSize placement multiplier = .ok n) : 0 ≤ n := by
  obtain ⟨-, -, hneg, -, hround, -⟩ := awardPoints_ok.mp h
  obtain ⟨product, hproduct, rfl⟩ := Option.map_eq_some_iff.mp hround
  rw [Decimal.times?_of_nonneg hneg] at hproduct
  rw [Decimal.roundWhole, Decimal.negative_of_fit hproduct]
  exact Int.natCast_nonneg _

/-- Multipliers that are equal as numbers have the same outcome, whether points or an overflow. -/
theorem awardPoints_eq_of_sameValue (h : a.sameValue b = true) (hneg : a.isNegative = false) :
    awardPoints fieldSize placement a = awardPoints fieldSize placement b := by
  rw [awardPoints_of_nonneg hneg, awardPoints_of_nonneg (Decimal.isNegative_congr h ▸ hneg),
    Decimal.roundWhole_times_congr h hneg]

theorem awardPoints_congr (h : a.sameValue b = true)
    (hn : awardPoints fieldSize placement a = .ok n) :
    awardPoints fieldSize placement b = .ok n := by
  rw [← hn, awardPoints_eq_of_sameValue h (awardPoints_ok.mp hn).2.2.1]

theorem fitsPoints_neg {n : Int} (hn : 0 ≤ n) (h : fitsPoints n = true) :
    fitsPoints (-n) = true := by
  rw [fitsPoints_iff] at h ⊢
  omega

/-! ## Plans and reversals -/

theorem mapM_cons_ok {ε α β : Type} {f : α → Except ε β} {a : α} {l : List α} {bs : List β} :
    (a :: l).mapM f = .ok bs ↔ ∃ b rest, f a = .ok b ∧ l.mapM f = .ok rest ∧ bs = b :: rest := by
  rw [List.mapM_cons]
  cases f a with
  | error e => simp [bind, Except.bind]
  | ok b =>
      cases l.mapM f with
      | error e => simp [bind, Except.bind]
      | ok rest => simp [bind, Except.bind, pure, Except.pure, eq_comm]

/-- The participants of some awards with their memberships. -/
def Award.seats (awards : List Award) : List (ParticipantId × MembershipId) :=
  awards.map fun a => (a.participantId, a.membershipId)

/-- The participants of a field with their memberships. -/
def Participant.seats (field : List Participant) : List (ParticipantId × MembershipId) :=
  field.map fun p => (p.id, p.membershipId)

theorem awardFor_ok {size placement : Nat} {multiplier : Decimal} {p : Participant} {a : Award} :
    awardFor size multiplier p placement = .ok a ↔
      (a.participantId, a.membershipId) = (p.id, p.membershipId) ∧ a.placement = placement ∧
        awardPoints size placement multiplier = .ok a.points := by
  unfold awardFor
  cases awardPoints size placement multiplier with
  | error e => simp [Except.map]
  | ok n =>
      obtain ⟨participantId, membershipId, placement', points⟩ := a
      simp only [Except.map, Except.ok.injEq, Award.mk.injEq, Prod.mk.injEq]
      constructor
      · rintro ⟨rfl, rfl, rfl, rfl⟩
        exact ⟨⟨rfl, rfl⟩, rfl, rfl⟩
      · rintro ⟨⟨rfl, rfl⟩, rfl, rfl⟩
        exact ⟨rfl, rfl, rfl, rfl⟩

theorem debitFor_ok {size : Nat} {multiplier : Decimal} {p : Participant} {a : Award} :
    debitFor size multiplier p = .ok a ↔
      (a.participantId, a.membershipId) = (p.id, p.membershipId) ∧ a.placement = p.placement ∧
        awardPoints size p.placement multiplier = .ok (-a.points) ∧ fitsPoints a.points = true := by
  unfold debitFor
  cases awardPoints size p.placement multiplier with
  | error e => simp [Except.bind]
  | ok n =>
      obtain ⟨participantId, membershipId, placement, points⟩ := a
      simp only [Except.bind, Except.ok.injEq, Prod.mk.injEq]
      split
      · next hfits =>
        simp only [Except.ok.injEq, Award.mk.injEq]
        constructor
        · rintro ⟨rfl, rfl, rfl, rfl⟩
          exact ⟨⟨rfl, rfl⟩, rfl, (Int.neg_neg n).symm, hfits⟩
        · rintro ⟨⟨rfl, rfl⟩, rfl, rfl, -⟩
          exact ⟨rfl, rfl, rfl, Int.neg_neg points⟩
      · next hfits =>
        simp only [reduceCtorEq, false_iff]
        rintro ⟨-, -, rfl, hpoints⟩
        exact hfits ((Int.neg_neg points).symm ▸ hpoints)

/-- Awards are never below zero, so the points of a placement can always be debited. -/
theorem debitFor_of_points {size : Nat} {multiplier : Decimal} {p : Participant} {n : Int}
    (h : awardPoints size p.placement multiplier = .ok n) :
    debitFor size multiplier p = .ok ⟨p.id, p.membershipId, p.placement, -n⟩ := by
  have hfits := fitsPoints_neg (awardPoints_nonneg h) (awardPoints_fits h)
  exact debitFor_ok.mpr ⟨rfl, rfl, (Int.neg_neg n).symm ▸ h, hfits⟩

theorem mapM_awardFor_ok {size first : Nat} {multiplier : Decimal} {l : List Participant}
    {awards : List Award} :
    ((l.zipIdx first).mapM fun (p, placement) => awardFor size multiplier p placement) =
    .ok awards ↔
      Award.seats awards = Participant.seats l ∧
        awards.map (·.placement) = List.range' first l.length ∧
        ∀ a ∈ awards, awardPoints size a.placement multiplier = .ok a.points := by
  induction l generalizing first awards with
  | nil =>
      constructor
      · intro h
        obtain rfl := Except.ok.inj h
        simp [Award.seats, Participant.seats]
      · rintro ⟨h, -, -⟩
        obtain rfl := List.map_eq_nil_iff.mp h
        rfl
  | cons p l ih =>
      rw [List.zipIdx_cons, mapM_cons_ok]
      simp only [awardFor_ok, ih]
      cases awards with
      | nil => simp [Award.seats, Participant.seats]
      | cons a rest =>
          simp only [Award.seats, Participant.seats, List.map_cons, List.length_cons,
            List.range'_succ, List.cons.injEq, List.forall_mem_cons]
          constructor
          · rintro ⟨_, _, ⟨hseat, rfl, hpoints⟩, ⟨hseats, hplaces, hrest⟩, rfl, rfl⟩
            exact ⟨⟨hseat, hseats⟩, ⟨rfl, hplaces⟩, hpoints, hrest⟩
          · rintro ⟨⟨hseat, hseats⟩, ⟨rfl, hplaces⟩, hpoints, hrest⟩
            exact ⟨a, rest, ⟨hseat, rfl, hpoints⟩, ⟨hseats, hplaces, hrest⟩, rfl, rfl⟩

/-- A plan that succeeds awards the placements from 1 on, in the order of the field. -/
theorem planAwards_ok {l : List Participant} {multiplier : Decimal} {awards : List Award} :
    planAwards l multiplier = .ok awards ↔
      l.length < countLimit ∧ Award.seats awards = Participant.seats l ∧
        awards.map (·.placement) = List.range' 1 l.length ∧
        ∀ a ∈ awards, awardPoints l.length a.placement multiplier = .ok a.points := by
  unfold planAwards
  split
  · next hlt => simp only [mapM_awardFor_ok, hlt, true_and]
  · next hlt => simp [hlt]

theorem mapM_debitFor_ok {size : Nat} {multiplier : Decimal} {l : List Participant}
    {debits : List Award} :
    l.mapM (debitFor size multiplier) = .ok debits ↔
      Award.seats debits = Participant.seats l ∧ debits.map (·.placement) = l.map (·.placement) ∧
        ∀ a ∈ debits, awardPoints size a.placement multiplier = .ok (-a.points) ∧
          fitsPoints a.points = true := by
  induction l generalizing debits with
  | nil =>
      constructor
      · intro h
        obtain rfl := Except.ok.inj h
        simp [Award.seats, Participant.seats]
      · rintro ⟨h, -, -⟩
        obtain rfl := List.map_eq_nil_iff.mp h
        rfl
  | cons p l ih =>
      rw [mapM_cons_ok]
      simp only [debitFor_ok, ih]
      cases debits with
      | nil => simp [Award.seats, Participant.seats]
      | cons a rest =>
          simp only [Award.seats, Participant.seats, List.map_cons, List.cons.injEq,
            List.forall_mem_cons]
          constructor
          · rintro ⟨_, _, ⟨hseat, hplace, hpoints⟩, ⟨hseats, hplaces, hrest⟩, rfl, rfl⟩
            exact ⟨⟨hseat, hseats⟩, ⟨hplace, hplaces⟩, hplace ▸ hpoints, hrest⟩
          · rintro ⟨⟨hseat, hseats⟩, ⟨hplace, hplaces⟩, hpoints, hrest⟩
            exact ⟨a, rest, ⟨hseat, hplace, hplace ▸ hpoints⟩, ⟨hseats, hplaces, hrest⟩, rfl, rfl⟩

theorem placed_of_pos {l : List Participant} (h : ∀ p ∈ l, 0 < p.placement) : placed l = l :=
  List.filter_eq_self.mpr fun p hp => decide_eq_true (h p hp)

/-- A reversal that succeeds debits the recorded placements, in the order of the field. -/
theorem planReversal_ok {l : List Participant} {multiplier : Decimal} {debits : List Award} :
    planReversal l multiplier = .ok debits ↔
      (placed l).length < countLimit ∧ Award.seats debits = Participant.seats (placed l) ∧
        debits.map (·.placement) = (placed l).map (·.placement) ∧
        ∀ a ∈ debits, awardPoints (placed l).length a.placement multiplier = .ok (-a.points) ∧
          fitsPoints a.points = true := by
  simp only [planReversal]
  split
  · next hlt => simp only [mapM_debitFor_ok, hlt, true_and]
  · next hlt => simp [hlt]

end CardClub
