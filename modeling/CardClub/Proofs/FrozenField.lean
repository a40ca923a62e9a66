import CardClub.Proofs.Money
import CardClub.Proofs.Settled

/-!
# Ended events stay as they are

From the end of an event to the call that undoes it, its field and the value of its multiplier do
not change, whatever is called in between. Calls on the event itself are refused or bear on other
things, and ending another event, or undoing its end, writes to the field of that event only.
-/

namespace CardClub

/-- Whether a call has undone the end of an event. -/
def Entry.undoes (event : EventId) (x : Entry) : Bool :=
  match x.call, x.answer with
  | .service (.undoEndEvent id), .ok _ => decide (id = event)
  | _, _ => false

namespace Club

variable {c c' c₁ : Club} {e row : Event}

/-- In two states of the tables, an event has ended with the same field and with a multiplier of the
same value. -/
structure Frozen (c c' : Club) (e : Event) : Prop where
  field : c'.field e.id = c.field e.id
  event : ∃ e' ∈ c'.events, e'.id = e.id ∧ e'.state.isEnded = true ∧
    e'.multiplier.value = e.multiplier.value

theorem Frozen.refl (he : e ∈ c.events) (hended : e.state.isEnded = true) : c.Frozen c e :=
  ⟨rfl, e, he, rfl, hended, rfl⟩

theorem Frozen.trans (h : c.Frozen c₁ e)
    (h' : ∀ e₁ ∈ c₁.events, e₁.id = e.id → e₁.state.isEnded = true → c₁.Frozen c' e₁) :
    c.Frozen c' e := by
  obtain ⟨hfield, e₁, he₁, hid, hended, hvalue⟩ := h
  obtain ⟨hfield', e₂, he₂, hid', hended', hvalue'⟩ := h' e₁ he₁ hid hended
  rw [hid] at hfield' hid'
  exact ⟨hfield'.trans hfield, e₂, he₂, hid', hended', hvalue'.trans hvalue⟩

theorem mem_putEvent_self (he : e ∈ c.events) (hid : row.id = e.id) :
    row ∈ (Statement.putEvent c row).events := by
  refine mem_replaceWhere.mpr ⟨e, he, ?_⟩
  rw [if_pos (by simp [hid])]

theorem mem_putEvent_of_ne (he : e ∈ c.events) (hid : e.id ≠ row.id) :
    e ∈ (Statement.putEvent c row).events := by
  refine mem_replaceWhere.mpr ⟨e, he, ?_⟩
  rw [if_neg (by simpa using hid)]

/-- Where the field of an event and the event itself are kept, it is frozen. -/
theorem Frozen.of_putEvent (he : e ∈ c.events) (hended : e.state.isEnded = true)
    (hevents : c'.events = (Statement.putEvent c row).events) (hid : e.id ≠ row.id)
    (hfield : c'.field e.id = c.field e.id) : c.Frozen c' e :=
  ⟨hfield, e, hevents ▸ mem_putEvent_of_ne he hid, rfl, hended, rfl⟩

theorem Touched.frozen (h : c.Touched c') (hc : c.Consistent) (he : e ∈ c.events)
    (hended : e.state.isEnded = true) : c.Frozen c' e := by
  cases h with
  | untouched hevents hparticipants =>
      exact ⟨field_congr hparticipants e.id, e, hevents ▸ he, rfl, hended, rfl⟩
  | announced row hopen hevents hparticipants =>
      have hmem : e ∈ c'.events := hevents ▸ List.mem_append_left _ he
      exact ⟨field_congr hparticipants e.id, e, hmem, rfl, hended, rfl⟩
  | changed e₁ row he₁ hid hstate hevents hothers hfrozen =>
      by_cases hsame : e.id = e₁.id
      · obtain rfl : e = e₁ := List.inj_on_of_nodup_map hc.event_ids he he₁ hsame
        obtain ⟨hfield, hmultiplier⟩ := hfrozen hended
        have hmem : row ∈ c'.events := hevents ▸ mem_putEvent_self he hid
        have hvalue := (Decimal.sameValue_iff.mp hmultiplier).symm
        exact ⟨hfield, row, hmem, hid, hstate ▸ hended, hvalue⟩
      · exact .of_putEvent he hended hevents (hid ▸ hsame) (hothers e.id hsame)

end Club

open Club

variable {c c' : Club} {e : Event} {stamp : Stamp} {call : ServiceCall}

/-- A call that does not undo the end of an event leaves it frozen. -/
theorem ServiceCall.Effect.frozen (h : call.Effect stamp c c') (hc : c.Consistent)
    (he : e ∈ c.events) (hended : e.state.isEnded = true) (hcall : call ≠ .undoEndEvent e.id) :
    c.Frozen c' e := by
  rcases h.closing with hopen | ⟨event, answer, rfl, hyields⟩ | ⟨event, debits, rfl, hyields⟩
  · exact (h.touched hc hopen).frozen hc he hended
  · obtain ⟨e₁, awards, deltas, rankings, he₁, hopen, -, -, -, -, -, rfl⟩ :=
      (Service.endEvent_yields hc).mp hyields
    obtain ⟨hmem, -⟩ := Statement.event?_eq_some he₁
    have hne : e.id ≠ e₁.id := by
      intro hid
      obtain rfl := List.inj_on_of_nodup_map hc.event_ids he hmem hid
      rw [hended] at hopen
      cases hopen
    exact .of_putEvent he hended rfl hne (field_closed_of_ne hne)
  · obtain ⟨e₁, deltas, rankings, he₁, -, -, -, -, rfl⟩ :=
      (Service.undoEndEvent_yields hc).mp hyields
    obtain ⟨-, rfl⟩ := Statement.event?_eq_some he₁
    have hne : e.id ≠ e₁.id := fun hid => hcall (hid ▸ rfl)
    exact .of_putEvent he hended rfl hne rfl

namespace Session

variable {steps more : List Step}

theorem frozen_step (hsteps : ∀ x ∈ steps, x.isService = true) {x : Step}
    (hx : x.isService = true) (he : e ∈ (start.after steps).club.events)
    (hended : e.state.isEnded = true)
    (hundo : ∀ y ∈ (start.after steps).log [x], y.undoes e.id = false) :
    (start.after steps).club.Frozen ((start.after steps).step x).club e := by
  have hc : (start.after steps).club.Consistent :=
    consistent_after fun y hy => Step.isProgram_of_isService (hsteps y hy)
  rcases step_service hx with ⟨hclub, -⟩ | ⟨stamp, call, reply, rfl, hyields, hlog⟩
  · rw [hclub]
    exact .refl he hended
  · refine (ServiceCall.effect hyields).frozen hc he hended ?_
    rintro rfl
    have hnot := hundo _ (hlog ▸ List.mem_singleton_self _)
    simp [Entry.undoes] at hnot

end Session

/-- While its end is not undone, an event that has ended keeps its field, and all that is written of
each member of it, and the value of its multiplier. -/
theorem ended_event_frozen {steps more : List Step} (hsteps : ∀ x ∈ steps, x.isService = true)
    (hmore : ∀ x ∈ more, x.isService = true) {e : Event}
    (he : e ∈ (Session.start.after steps).club.events) (hended : e.state.isEnded = true)
    (hundo : ∀ x ∈ (Session.start.after steps).log more, x.undoes e.id = false) :
    (Session.start.after steps).club.Frozen ((Session.start.after steps).after more).club e := by
  -- each step starts from what the steps before it have left of the event
  induction more generalizing steps e with
  | nil => exact .refl he hended
  | cons x more ih =>
      rw [← List.singleton_append, Session.log_append] at hundo
      obtain ⟨hx, hmore⟩ := List.forall_mem_cons.mp hmore
      have hstep := Session.frozen_step hsteps hx he hended
        fun y hy => hundo y (List.mem_append_left _ hy)
      refine hstep.trans fun e₁ he₁ hid hended₁ => ?_
      have hundo₁ : ∀ y ∈ ((Session.start.after steps).step x).log more,
          y.undoes e₁.id = false :=
        fun y hy => hid ▸ hundo y (List.mem_append_right _ hy)
      rw [Session.after_cons]
      rw [← Session.after_concat] at he₁ hundo₁ ⊢
      exact ih (forall_mem_concat hsteps hx) hmore he₁ hended₁ hundo₁

namespace Night

/-- Calls after the end of the event: it is renamed, moved to another day and given the multiplier
1.0 for 1; a player tries to get back to the table; an undo goes to an event that does not exist. -/
def later : List Step :=
  [.call ⟨uuid 9, time 90⟩ (.service (.updateEvent ⟨uuid 4⟩
      ⟨none, some "Final", none, some (time 60), Decimal.ofParts? 10 1⟩)),
    .call ⟨uuid 10, time 91⟩ (.service (.signIn ⟨uuid 5⟩)),
    .call ⟨uuid 11, time 92⟩ (.service (.undoEndEvent ⟨uuid 7⟩))]

end Night

theorem night_event_frozen :
    let s := Session.start.after Night.whole
    ((s.after Night.later).club.event? ⟨Night.uuid 4⟩).map (·.name) = some "Final" ∧
      s.club.Frozen (s.after Night.later).club
        { Night.event (Night.time 50) with state := .ended } := by
  intro s
  have hmem : { Night.event (Night.time 50) with state := .ended } ∈ s.club.events := by
    simp only [s, Night.after_whole]
    decide +kernel
  have hundo : ∀ x ∈ s.log Night.later, x.undoes ⟨Night.uuid 4⟩ = false := by
    simp only [s, Night.after_whole]
    decide +kernel
  constructor
  · simp only [s, Night.after_whole]
    decide +kernel
  · exact ended_event_frozen Night.isService_whole (by decide +kernel) hmem rfl hundo

end CardClub
