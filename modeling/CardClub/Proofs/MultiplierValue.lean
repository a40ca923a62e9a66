import CardClub.Proofs.ExactPoints

/-!
# Points and the value of the multiplier

Points depend on the value of the multiplier and not on its scale, and a smaller multiplier or a
worse placement never earns more. This is why the multiplier of an event that has ended may be
written in another form: what undoing the end debits stays the same.
-/

namespace CardClub

namespace Decimal

variable {a b d : Decimal} {scale : Nat}

theorem isNegative_of_value_nonneg (h : 0 ≤ d.value) : d.isNegative = false := by
  rw [← Bool.not_eq_true, isNegative_iff]
  exact not_lt.mpr h

theorem value_eq_digitsAt (hneg : d.isNegative = false) (hle : d.scale ≤ scale) :
    d.value = d.digitsAt scale / tenPow scale := by
  have hown : (tenPow d.scale : Rat) ≠ 0 := by exact_mod_cast tenPow_ne_zero d.scale
  have hscale : (tenPow scale : Rat) ≠ 0 := by exact_mod_cast tenPow_ne_zero scale
  rw [value_of_nonneg hneg, div_eq_div_iff hown hscale]
  exact_mod_cast (digitsAt_mul hle).symm

theorem digitsAt_le (ha : a.isNegative = false) (hb : b.isNegative = false)
    (has : a.scale ≤ scale) (hbs : b.scale ≤ scale) (hle : a.value ≤ b.value) :
    a.digitsAt scale ≤ b.digitsAt scale := by
  have hscale : (0 : Rat) < tenPow scale := by exact_mod_cast tenPow_pos scale
  rw [value_eq_digitsAt ha has, value_eq_digitsAt hb hbs, div_le_div_iff_of_pos_right hscale] at hle
  exact_mod_cast hle

end Decimal

variable {size placement placement' : Nat} {multiplier multiplier' : Decimal} {k : Int}

/-! ## Points -/

/-- A smaller multiplier and a worse placement earn no more. -/
theorem awardPoints_mono_value (hpos : 1 ≤ placement) (hworse : placement ≤ placement')
    (hle : placement' ≤ size) (hnonneg : 0 ≤ multiplier.value)
    (hless : multiplier.value ≤ multiplier'.value)
    (h : awardPoints size placement multiplier' = .ok k) :
    ∃ k', awardPoints size placement' multiplier = .ok k' ∧ 0 ≤ k' ∧ k' ≤ k := by
  have hneg := Decimal.isNegative_of_value_nonneg hnonneg
  have hneg' := Decimal.isNegative_of_value_nonneg (hnonneg.trans hless)
  have hs : multiplier.scale ≤ max multiplier.scale multiplier'.scale := Nat.le_max_left ..
  have hs' : multiplier'.scale ≤ max multiplier.scale multiplier'.scale := Nat.le_max_right ..
  obtain ⟨k', hk', hkk⟩ := awardPoints_mono_digitsAt (by omega) hle
    (Nat.sub_le_sub_left hworse size) hneg hs' hs
    (Nat.max_le.mpr ⟨multiplier.scale_le, multiplier'.scale_le⟩)
    (Decimal.digitsAt_le hneg hneg' hs hs' hless) h
  exact ⟨k', hk', awardPoints_nonneg hk', hkk⟩

/-! ## Reversals -/

theorem planReversal_eq_of_sameValue (participants : List Participant)
    (hsame : multiplier.sameValue multiplier' = true) (hneg : multiplier.isNegative = false) :
    planReversal participants multiplier = planReversal participants multiplier' := by
  have hdebit (size : Nat) : debitFor size multiplier = debitFor size multiplier' := by
    funext p
    rw [debitFor, debitFor, awardPoints_eq_of_sameValue hsame hneg]
  simp only [planReversal, hdebit]

/-- Undoing the end of an event gives some debits and leaves some rankings. -/
def Club.UndoGives (c : Club) (event : EventId) (debits : List Award) (rankings : List Ranking) :
    Prop :=
  ∃ c', (Service.undoEndEvent event).Yields c debits c' ∧ c'.rankings = rankings

namespace Club

variable {c c' : Club} {e row : Event} {event : EventId} {update : EventUpdate}
  {debits : List Award} {rankings : List Ranking}

theorem Consistent.undoGives_iff (hc : c.Consistent) (he : c.event? event = some e)
    (hended : e.state.isEnded = true) :
    c.UndoGives event debits rankings ↔
      planReversal (c.participantsOf event) e.multiplier = .ok debits ∧
        ∃ deltas, netDeltas debits = .ok deltas ∧
          deltas.foldlM Statement.creditRanking c.rankings = .ok rankings := by
  constructor
  · rintro ⟨c', hundo, rfl⟩
    obtain ⟨e', deltas, rankings, he', -, hplan, hnet, hfold, rfl⟩ :=
      (Service.undoEndEvent_yields hc).mp hundo
    obtain rfl := Option.some.inj (he.symm.trans he')
    exact ⟨hplan, deltas, hnet, hfold⟩
  · rintro ⟨hplan, deltas, hnet, hfold⟩
    exact ⟨_, (Service.undoEndEvent_yields hc).mpr
      ⟨e, deltas, rankings, he, hended, hplan, hnet, hfold, rfl⟩, rfl⟩

/-- No update of an event that has ended changes what undoing the end gives. -/
theorem Consistent.undoGives_updated (hc : c.Consistent) (he : c.event? event = some e)
    (hended : e.state.isEnded = true) (h : (Service.updateEvent event update).Yields c row c') :
    c'.UndoGives event debits rankings ↔ c.UndoGives event debits rankings := by
  have hc' : c'.Consistent := (Service.composed_updateEvent event update).consistent h hc
  obtain ⟨-, e₁, he₁, hfrozen, hst⟩ := Service.updateEvent_yields.mp h
  obtain rfl := Option.some.inj (he.symm.trans he₁)
  rw [hended, Bool.true_and] at hfrozen
  rcases Statement.updateEvent_ok hst with ⟨hnone, -, -⟩ | ⟨e₂, row', he₂, hrow, -, -, rfl⟩
  · rw [he] at hnone
    cases hnone
  · obtain rfl := Option.some.inj (he.symm.trans he₂)
    obtain ⟨hmem, rfl⟩ := Statement.event?_eq_some he
    have hfound : (Statement.putEvent c row').event? e.id = some row' := by
      have hid : row'.id = e.id := hrow ▸ rfl
      have hput : row' ∈ (Statement.putEvent c row').events :=
        mem_replaceWhere.mpr ⟨e, hmem, if_pos (decide_eq_true hid.symm)⟩
      exact hid ▸ hc'.event?_of_mem hput
    have hended' : row'.state.isEnded = true := hrow ▸ hended
    have hsame : e.multiplier.sameValue row'.multiplier = true :=
      hrow ▸ update.sameValue_apply hfrozen
    -- the update has touched neither the field nor the rankings
    rw [hc'.undoGives_iff hfound hended', hc.undoGives_iff he hended,
      planReversal_eq_of_sameValue _ hsame (hc.events_admissible e hmem).multiplier]
    rfl

end Club

/-- Points grow with the multiplier and fall with the placement, whatever the scales: what earns
points for a placement and a multiplier earns no more, and does not overflow, for a worse placement
and a smaller multiplier. Multipliers of the same value earn the same points or both overflow. So no
update of an event that has ended changes what undoing the end debits. -/
theorem points_follow_value :
    (∀ (size placement placement' : Nat) (multiplier multiplier' : Decimal) (k : Int),
      1 ≤ placement → placement ≤ placement' → placement' ≤ size → 0 ≤ multiplier.value →
      multiplier.value ≤ multiplier'.value → awardPoints size placement multiplier' = .ok k →
        ∃ k', awardPoints size placement' multiplier = .ok k' ∧ 0 ≤ k' ∧ k' ≤ k) ∧
    (∀ (size placement : Nat) (multiplier multiplier' : Decimal), 1 ≤ placement →
      placement ≤ size → 0 ≤ multiplier.value → multiplier.value = multiplier'.value →
        (∃ k, awardPoints size placement multiplier = .ok k ∧
          awardPoints size placement multiplier' = .ok k) ∨
        ∃ step, awardPoints size placement multiplier = .error (.overflow step) ∧
          awardPoints size placement multiplier' = .error (.overflow step)) ∧
    ∀ (steps : List Step) (e : Event) (event : EventId) (update : EventUpdate) (row : Event)
      (c' : Club), (∀ x ∈ steps, x.isProgram = true) →
      (Session.start.after steps).club.event? event = some e → e.state = .ended →
      (Service.updateEvent event update).Yields (Session.start.after steps).club row c' →
        ∀ debits rankings, c'.UndoGives event debits rankings ↔
          (Session.start.after steps).club.UndoGives event debits rankings := by
  refine ⟨fun _ _ _ _ _ _ => awardPoints_mono_value,
    fun size placement multiplier multiplier' hpos hle hnonneg hsame => ?_,
    fun steps e event update row c' hsteps he hended h debits rankings => ?_⟩
  · have hvalid : ¬ (placement = 0 ∨ size < placement) := by omega
    have hneg := Decimal.isNegative_of_value_nonneg hnonneg
    rw [← awardPoints_eq_of_sameValue (Decimal.sameValue_iff.mpr hsame) hneg]
    rcases ok_or_overflow hvalid hneg with ⟨k, hk⟩ | ⟨step, hstep⟩
    · exact .inl ⟨k, hk, hk⟩
    · exact .inr ⟨step, hstep, hstep⟩
  · exact (Session.consistent_after hsteps).undoGives_updated he (hended ▸ rfl) h

/-! ## A multiplier with zeros -/

namespace Rescaled

open Night (uuid time)

/-- The multiplier 1.000. -/
def thousandths : Decimal := ⟨false, 1000, 3, by decide, by decide⟩

def update : EventUpdate := { EventUpdate.empty with multiplier := some thousandths }

def ended : Event := { Night.event (time 50) with state := .ended }

def row : Event := { ended with multiplier := thousandths }

theorem updates : (Service.updateEvent ⟨uuid 4⟩ update).Yields
    (Session.start.after Night.whole).club row
    (Statement.putEvent (Session.start.after Night.whole).club row) := by
  rw [Night.after_whole]
  exact Service.updateEvent_yields.mpr
    ⟨by decide +kernel, ended, by decide +kernel, by decide +kernel, by decide +kernel⟩

end Rescaled

theorem thousandths_same_debits :
    let c := (Session.start.after Night.whole).club
    (∃ k, awardPoints 2 2 Rescaled.thousandths = .ok k ∧ 0 ≤ k ∧ k ≤ 20) ∧
    (∃ k, awardPoints 2 1 .one = .ok k ∧ awardPoints 2 1 Rescaled.thousandths = .ok k) ∧
    ∃ c', (Service.updateEvent ⟨Night.uuid 4⟩ Rescaled.update).Yields c Rescaled.row c' ∧
      ∀ debits rankings, c'.UndoGives ⟨Night.uuid 4⟩ debits rankings ↔
        c.UndoGives ⟨Night.uuid 4⟩ debits rankings := by
  intro c
  obtain ⟨hmono, hequal, hundo⟩ := points_follow_value
  have hvalue : Rescaled.thousandths.value = Decimal.one.value := by decide +kernel
  have hnonneg : 0 ≤ Decimal.one.value := by decide +kernel
  have htwenty : awardPoints 2 1 .one = .ok 20 := by decide +kernel
  have hended : c.event? ⟨Night.uuid 4⟩ = some Rescaled.ended := by
    rw [show c = _ from congrArg Session.club Night.after_whole]
    decide +kernel
  refine ⟨hmono 2 1 2 Rescaled.thousandths .one 20 (by decide) (by decide) (by decide)
    (hvalue ▸ hnonneg) hvalue.le htwenty, ?_, _, Rescaled.updates,
    hundo Night.whole _ _ _ _ _
      (fun x hx => Step.isProgram_of_isService (Night.isService_whole x hx)) hended rfl
      Rescaled.updates⟩
  rcases hequal 2 1 .one Rescaled.thousandths (by decide) (by decide) hnonneg hvalue.symm with
    hk | ⟨step, hstep, -⟩
  · exact hk
  · rw [htwenty] at hstep
    cases hstep

end CardClub
