import CardClub.Proofs.Closing

/-!
# What is frozen when an event has ended

Apart from ending an event and undoing the end, a call bears on at most one event and its field,
keeps the state of the event, and leaves the field and the value of the multiplier of an ended event
as they are. Its only effect on the rankings is to credit the deltas that it was given.
-/

namespace CardClub

namespace Decimal

@[simp] theorem sameValue_stored (a b : Decimal) : a.stored.sameValue b = a.sameValue b := by
  by_cases hzero : a.isZero = true
  · have hmag : a.magnitude = 0 := by simpa [isZero] using hzero
    have hcoef : a.coefficient = 0 := Int.natAbs_eq_zero.mp (hmag ▸ natAbs_coefficient a)
    have hpow : tenPow a.scale ≠ 0 := Nat.ne_of_gt (tenPow_pos a.scale)
    have hzero' : zero.coefficient = 0 ∧ zero.scale = 0 := ⟨rfl, rfl⟩
    rw [stored, if_pos hzero, Bool.eq_iff_iff]
    simp [sameValue, hcoef, hpow, hzero', @eq_comm Int 0]
  · simp [stored, hzero]

end Decimal

theorem EventUpdate.sameValue_apply (update : EventUpdate) {plan : EventPlan}
    (h : update.changesMultiplier plan.multiplier = false) :
    plan.multiplier.sameValue (update.apply plan).multiplier = true := by
  unfold changesMultiplier at h
  unfold apply
  cases hm : update.multiplier with
  | none => exact Decimal.sameValue_self _
  | some m =>
      rw [hm] at h
      rw [Decimal.sameValue_comm]
      simpa using h

/-- Whether a call ends an event or undoes the end of one. -/
def ServiceCall.isClosing : ServiceCall → Bool
  | endEvent _ | undoEndEvent _ => true
  | _ => false

/-- The deltas that a call is given for the rankings. -/
def ServiceCall.deltas : ServiceCall → List (MembershipId × Int)
  | updateRanking m delta => [(m, delta)]
  | batchUpdateRankings deltas => deltas
  | _ => []

namespace Club

variable {c c' : Club}

/-- At most one event has changed with its field, and if it has ended, its field and the value of
its multiplier have not. -/
inductive Touched (c c' : Club) : Prop where
  | untouched (hevents : c'.events = c.events) (hparticipants : c'.participants = c.participants)
  | announced (row : Event) (hopen : row.state.isEnded = false)
      (hevents : c'.events = c.events ++ [row])
      (hparticipants : c'.participants = c.participants)
  | changed (e row : Event) (he : e ∈ c.events) (hid : row.id = e.id) (hstate : row.state = e.state)
      (hevents : c'.events = (Statement.putEvent c row).events)
      (hothers : ∀ id, id ≠ e.id → c'.field id = c.field id)
      (hfrozen : e.state.isEnded = true →
        c'.field e.id = c.field e.id ∧ e.multiplier.sameValue row.multiplier = true)

theorem field_congr (h : c'.participants = c.participants) (event : EventId) :
    c'.field event = c.field event := by
  rw [field, field, h]

namespace Consistent

theorem putEvent_self (hc : c.Consistent) {e : Event} (he : e ∈ c.events) :
    (Statement.putEvent c e).events = c.events :=
  replaceWhere_eq_self fun _ hx heq =>
    List.inj_on_of_nodup_map hc.event_ids he hx (of_decide_eq_true heq).symm

theorem touched_of_participant (hc : c.Consistent) {p : Participant} {e : Event}
    (hp : p ∈ c.participants) (he : e ∈ c.events) (hevent : p.eventId = e.id)
    (hopen : e.state.isEnded = false) {change : Participant → Participant}
    (hchange : ∀ p, (change p).eventId = p.eventId) :
    c.Touched { c with
      participants := replaceWhere (fun x => decide (x.id = p.id)) change c.participants } := by
  refine .changed e e he rfl rfl (hc.putEvent_self he).symm (fun id hid => ?_) fun hended => ?_
  · refine field_replaceWhere (fun q hq hid' heq => ?_) hchange
    obtain rfl := List.inj_on_of_nodup_map hc.participant_ids hq hp (of_decide_eq_true hid')
    exact hid (heq.symm.trans hevent)
  · rw [hopen] at hended
    cases hended

end Consistent

end Club

open Club

variable {c c' : Club} {stamp : Stamp} {call : ServiceCall}

theorem ServiceCall.Effect.closing (h : call.Effect stamp c c') :
    call.isClosing = false ∨
      (∃ event answer, call = .endEvent event ∧ (Service.endEvent event).Yields c answer c') ∨
      ∃ event debits, call = .undoEndEvent event ∧
      (Service.undoEndEvent event).Yields c debits c' := by
  cases h with
  | ended h => exact .inr (.inl ⟨_, _, rfl, h⟩)
  | endUndone h => exact .inr (.inr ⟨_, _, rfl, h⟩)
  | @looked call hread => cases call <;> first | exact .inl rfl | cases hread
  | _ => exact .inl rfl

/-- Calls leave ended events frozen. -/
theorem ServiceCall.Effect.touched (h : call.Effect stamp c c') (hc : c.Consistent)
    (hcall : call.isClosing = false) : c.Touched c' := by
  cases h with
  | looked | semesterOpened | joined | adjusted | adjustedAll => exact .untouched rfl rfl
  | announced hfault hst =>
      obtain ⟨-, -, -, rfl, -⟩ := Statement.insertEvent_ok hst
      exact .announced _ rfl rfl rfl
  | @amended event update e hfault he hfrozen =>
      obtain ⟨hmem, -⟩ := Statement.event?_eq_some he
      refine .changed e { e with toEventPlan := update.apply e.toEventPlan } hmem rfl rfl rfl
        (fun _ _ => rfl) fun hended => ⟨rfl, ?_⟩
      rw [hended, Bool.true_and] at hfrozen
      exact update.sameValue_apply hfrozen
  | @entered event membership e m p he hopen hm hsemester hst =>
      obtain ⟨hmem, rfl⟩ := Statement.event?_eq_some he
      obtain ⟨-, -, -, -, rfl, -⟩ := Statement.insertParticipant_ok hst
      refine .changed e e hmem rfl rfl (hc.putEvent_self hmem).symm (fun id hid => ?_)
        fun hended => ?_
      · rw [field, field, List.filter_append, List.filter_cons_of_neg (by simpa using hid.symm)]
        exact List.append_nil _
      · rw [hopen] at hended
        cases hended
  | @signedOut id p e hp he hopen =>
      obtain ⟨hmem, hevent⟩ := Statement.event?_eq_some he
      obtain ⟨hmem', rfl⟩ := mem_of_find?_key hp
      exact hc.touched_of_participant hmem' hmem hevent.symm hopen fun _ => rfl
  | @signedIn id p e hp he hopen =>
      obtain ⟨hmem, hevent⟩ := Statement.event?_eq_some he
      obtain ⟨hmem', rfl⟩ := mem_of_find?_key hp
      exact hc.touched_of_participant hmem' hmem hevent.symm hopen fun _ => rfl
  | ended => cases hcall
  | endUndone => cases hcall
  | @rebought event e row he =>
      obtain ⟨hmem, -⟩ := Statement.event?_eq_some he
      exact .changed e { e with rebuys := e.rebuys + 1 } hmem rfl rfl rfl (fun _ _ => rfl)
        fun _ => ⟨rfl, Decimal.sameValue_self _⟩

/-- Calls credit the deltas that they are given and no others. -/
theorem ServiceCall.Effect.credits (h : call.Effect stamp c c') (hcall : call.isClosing = false) :
    call.deltas.foldlM Statement.creditRanking c.rankings = .ok c'.rankings := by
  cases h with
  | @looked call hread => cases call <;> first | rfl | cases hread
  | adjusted hm hfold => exact hfold
  | adjustedAll hm hfold => exact hfold
  | ended => cases hcall
  | endUndone => cases hcall
  | _ => rfl

end CardClub
