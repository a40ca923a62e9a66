import CardClub.Proofs.FrozenField
import Mathlib.Data.List.Chain

/-!
# The life of an event

The log of a history tells what has become of an event since it was created. Ends and their undoing
take turns, the last of them has set the state, and each rebuy has been counted once, while the
event was started. No other call bears on the state and on the rebuys, and the identifier, the
semester and the time of creation stay as they were.
-/

namespace CardClub

/-- The state that a call gives to an event. -/
def ServiceCall.turn? (event : EventId) : ServiceCall → Option EventState
  | endEvent id => if id = event then some .ended else none
  | undoEndEvent id => if id = event then some .started else none
  | _ => none

def ServiceCall.rebuys (event : EventId) : ServiceCall → Bool
  | newRebuy id => decide (id = event)
  | _ => false

/-- The call neither ends the event nor undoes its end, and is no rebuy of it. -/
def ServiceCall.Spares (call : ServiceCall) (event : EventId) : Prop :=
  call.turn? event = none ∧ call.rebuys event = false

namespace Entry

/-- The call of a service, if it has succeeded. -/
def done? (x : Entry) : Option ServiceCall :=
  match x.call, x.answer with
  | .service call, .ok _ => some call
  | _, _ => none

def turn? (event : EventId) (x : Entry) : Option EventState :=
  x.done?.bind (ServiceCall.turn? event)

def rebuys (event : EventId) (x : Entry) : Bool := x.done?.any (ServiceCall.rebuys event)

def Spares (x : Entry) (event : EventId) : Prop := ∀ call, x.done? = some call → call.Spares event

def created? (x : Entry) : Option Event :=
  match x.call, x.answer with
  | .service (.createEvent _), .ok (.event row) => some row
  | _, _ => none

variable {x : Entry} {event : EventId}

theorem Spares.turn? (h : x.Spares event) : x.turn? event = none := by
  rw [Entry.turn?]
  cases hdone : x.done? with
  | none => rfl
  | some call => exact (h call hdone).1

theorem Spares.rebuys (h : x.Spares event) : x.rebuys event = false := by
  rw [Entry.rebuys]
  cases hdone : x.done? with
  | none => rfl
  | some call => exact (h call hdone).2

theorem spares_of_error {cause : CallError} (h : x.answer = .error cause) : x.Spares event := by
  obtain ⟨before, stamp, call, answer⟩ := x
  obtain rfl : answer = .error cause := h
  intro done hdone
  cases call <;> cases hdone

theorem spares_of_done {call : ServiceCall} (h : x.done? = some call) (hcall : call.Spares event) :
    x.Spares event := by
  intro done hdone
  rw [h] at hdone
  obtain rfl := Option.some.inj hdone
  exact hcall

theorem created?_eq_some {row : Event} (h : x.created? = some row) :
    ∃ plan, x.call = .service (.createEvent plan) ∧ x.answer = .ok (.event row) := by
  obtain ⟨before, stamp, call, answer⟩ := x
  simp only [created?] at h
  split at h
  · next plan e =>
    obtain rfl := Option.some.inj h
    exact ⟨plan, rfl, rfl⟩
  · cases h

end Entry

/-! ## One call -/

/-- What a call that succeeds makes of an event. -/
structure Event.Follows (call : ServiceCall) (e e' : Event) : Prop where
  id : e'.id = e.id
  semester : e'.semesterId = e.semesterId
  createdAt : e'.createdAt = e.createdAt
  state : e'.state = (call.turn? e.id).getD e.state
  turned : call.turn? e.id ≠ some e.state
  rebuys : e'.rebuys = e.rebuys + if call.rebuys e.id then 1 else 0
  started : call.rebuys e.id = true → e.state = .started

variable {c c' : Club} {e e₁ row : Event} {event : EventId} {stamp : Stamp} {call : ServiceCall}

theorem Event.Follows.refl (h : call.Spares e.id) : e.Follows call e where
  id := rfl
  semester := rfl
  createdAt := rfl
  state := by rw [h.1, Option.getD_none]
  turned := by simp [h.1]
  rebuys := by simp [h.2]
  started := by simp [h.2]

theorem Club.Consistent.follows_putEvent (hc : c.Consistent) (he : e ∈ c.events)
    (he₁ : c.event? event = some e₁) (hevents : c'.events = (Statement.putEvent c row).events)
    (hown : e₁.Follows call row) (hother : e.id ≠ event → call.Spares e.id) :
    ∃ e' ∈ c'.events, e.Follows call e' := by
  obtain ⟨hmem, rfl⟩ := Statement.event?_eq_some he₁
  rw [hevents]
  by_cases hid : e.id = e₁.id
  · obtain rfl := List.inj_on_of_nodup_map hc.event_ids he hmem hid
    exact ⟨row, mem_putEvent_self he hown.id, hown⟩
  · exact ⟨e, mem_putEvent_of_ne he (hown.id ▸ hid), .refl (hother hid)⟩

theorem EventState.eq_started {state : EventState} (h : state.isEnded = false) :
    state = .started := by
  cases state
  · rfl
  · cases h

theorem EventState.eq_ended {state : EventState} (h : state.isEnded = true) : state = .ended := by
  cases state
  · cases h
  · rfl

theorem ServiceCall.isRead_spares (h : call.isRead = true) : call.Spares event := by
  cases call <;> first | exact ⟨rfl, rfl⟩ | cases h

theorem ServiceCall.Effect.follows (h : call.Effect stamp c c') (hc : c.Consistent)
    (he : e ∈ c.events) : ∃ e' ∈ c'.events, e.Follows call e' := by
  cases h with
  | looked hread => exact ⟨e, he, .refl (isRead_spares hread)⟩
  | semesterOpened | joined | entered | signedOut | signedIn | adjusted | adjustedAll =>
      exact ⟨e, he, .refl ⟨rfl, rfl⟩⟩
  | announced => exact ⟨e, List.mem_append_left _ he, .refl ⟨rfl, rfl⟩⟩
  | amended hfault he₁ =>
      exact hc.follows_putEvent he he₁ rfl ⟨rfl, rfl, rfl, rfl, nofun, rfl, nofun⟩
        fun _ => ⟨rfl, rfl⟩
  | ended hyields =>
      obtain ⟨e₁, awards, deltas, rankings, he₁, hopen, -, -, -, -, -, rfl⟩ :=
        (Service.endEvent_yields hc).mp hyields
      obtain ⟨-, rfl⟩ := Statement.event?_eq_some he₁
      refine hc.follows_putEvent he he₁ rfl ⟨rfl, rfl, rfl, ?_, ?_, rfl, nofun⟩ fun hne => ?_
      · simp [ServiceCall.turn?]
      · simp [ServiceCall.turn?, EventState.eq_started hopen]
      · exact ⟨if_neg (Ne.symm hne), rfl⟩
  | endUndone hyields =>
      obtain ⟨e₁, deltas, rankings, he₁, hended, -, -, -, rfl⟩ :=
        (Service.undoEndEvent_yields hc).mp hyields
      obtain ⟨-, rfl⟩ := Statement.event?_eq_some he₁
      refine hc.follows_putEvent he he₁ rfl ⟨rfl, rfl, rfl, ?_, ?_, rfl, nofun⟩ fun hne => ?_
      · simp [ServiceCall.turn?]
      · simp [ServiceCall.turn?, EventState.eq_ended hended]
      · exact ⟨if_neg (Ne.symm hne), rfl⟩
  | rebought he₁ hopen =>
      obtain ⟨-, rfl⟩ := Statement.event?_eq_some he₁
      refine hc.follows_putEvent he he₁ rfl
        ⟨rfl, rfl, rfl, rfl, nofun, ?_, fun _ => EventState.eq_started hopen⟩ fun hne => ?_
      · simp [ServiceCall.rebuys]
      · exact ⟨rfl, decide_eq_false (Ne.symm hne)⟩

/-- A call that succeeds leaves alone whatever event there is not. -/
theorem ServiceCall.Effect.spares (h : call.Effect stamp c c') (hc : c.Consistent)
    (hnone : event ∉ c.events.map (·.id)) : call.Spares event := by
  have hne {id : EventId} {e : Event} (he : c.event? id = some e) : id ≠ event := by
    rintro rfl
    exact hnone (isSome_find?_key.mp (Option.isSome_of_eq_some he))
  cases h with
  | looked hread => exact isRead_spares hread
  | ended hyields =>
      obtain ⟨e, awards, deltas, rankings, he, -⟩ := (Service.endEvent_yields hc).mp hyields
      exact ⟨if_neg (hne he), rfl⟩
  | endUndone hyields =>
      obtain ⟨e, deltas, rankings, he, -⟩ := (Service.undoEndEvent_yields hc).mp hyields
      exact ⟨if_neg (hne he), rfl⟩
  | rebought he => exact ⟨rfl, decide_eq_false (hne he)⟩
  | _ => exact ⟨rfl, rfl⟩

/-! ## Whole histories -/

/-- The states that an event has been in, from its creation on. -/
def stages (event : EventId) (log : List Entry) : List EventState :=
  .started :: log.filterMap (Entry.turn? event)

/-- The event is as the log of a history tells. -/
structure Event.Chronicled (log : List Entry) (e : Event) : Prop where
  turns : (stages e.id log).IsChain (· ≠ ·)
  state : (stages e.id log).getLast? = some e.state
  rebuys : e.rebuys = log.countP (Entry.rebuys e.id)
  started : ∀ x ∈ log, x.rebuys e.id = true →
    ∃ e₀, x.before.event? e.id = some e₀ ∧ e₀.state = .started

variable {log entries : List Entry}

theorem filterMap_turn?_of_spares (h : ∀ x ∈ entries, x.Spares event) :
    entries.filterMap (Entry.turn? event) = [] :=
  List.filterMap_eq_nil_iff.mpr fun x hx => (h x hx).turn?

theorem countP_rebuys_of_spares (h : ∀ x ∈ entries, x.Spares event) :
    entries.countP (Entry.rebuys event) = 0 := by
  apply List.countP_eq_zero.mpr
  intro x hx
  rw [(h x hx).rebuys]
  exact Bool.false_ne_true

theorem stages_append_spared (h : ∀ x ∈ entries, x.Spares event) :
    stages event (log ++ entries) = stages event log := by
  rw [stages, stages, List.filterMap_append, filterMap_turn?_of_spares h, List.append_nil]

namespace Event

theorem chronicled_of_created (hstate : e.state = .started) (hrebuys : e.rebuys = 0)
    (hlog : ∀ x ∈ log, x.Spares e.id) : e.Chronicled log := by
  have hstages : stages e.id log = [.started] := by
    rw [stages, filterMap_turn?_of_spares hlog]
  constructor
  · rw [hstages]
    exact List.isChain_singleton _
  · rw [hstages, hstate]
    rfl
  · rw [hrebuys, countP_rebuys_of_spares hlog]
  · intro x hx hrebuy
    rw [(hlog x hx).rebuys] at hrebuy
    cases hrebuy

theorem Chronicled.append_spared (h : e.Chronicled log) (hentries : ∀ x ∈ entries, x.Spares e.id) :
    e.Chronicled (log ++ entries) := by
  constructor
  · rw [stages_append_spared hentries]
    exact h.turns
  · rw [stages_append_spared hentries]
    exact h.state
  · rw [List.countP_append, countP_rebuys_of_spares hentries, Nat.add_zero]
    exact h.rebuys
  · intro x hx hrebuy
    rcases List.mem_append.mp hx with hx | hx
    · exact h.started x hx hrebuy
    · rw [(hentries x hx).rebuys] at hrebuy
      cases hrebuy

theorem Chronicled.concat {reply : Reply} {e' : Event} (h : e.Chronicled log)
    (hfollows : e.Follows call e') (hfound : c.event? e.id = some e) :
    e'.Chronicled (log ++ [⟨c, stamp, .service call, .ok reply⟩]) := by
  have hturn : Entry.turn? e.id ⟨c, stamp, .service call, .ok reply⟩ = call.turn? e.id := rfl
  have hstages : stages e.id (log ++ [⟨c, stamp, .service call, .ok reply⟩]) =
      stages e.id log ++ (call.turn? e.id).toList := by
    rw [stages, List.filterMap_append, ← List.cons_append, ← stages, List.filterMap_cons, hturn]
    cases call.turn? e.id <;> rfl
  constructor
  · rw [hfollows.id, hstages, List.isChain_append]
    refine ⟨h.turns, ?_, fun s hs t ht => ?_⟩
    · cases call.turn? e.id
      · exact List.isChain_nil
      · exact List.isChain_singleton _
    · obtain rfl := Option.some.inj (h.state.symm.trans hs)
      rintro rfl
      apply hfollows.turned
      cases hturn : call.turn? e.id with
      | none => simp [hturn] at ht
      | some t => simpa [hturn] using ht
  · rw [hfollows.id, hstages, hfollows.state, List.getLast?_append, h.state]
    cases call.turn? e.id <;> rfl
  · rw [hfollows.id, hfollows.rebuys, h.rebuys, List.countP_append, List.countP_singleton]
    rfl
  · rw [hfollows.id]
    intro x hx hrebuy
    rcases List.mem_append.mp hx with hx | hx
    · exact h.started x hx hrebuy
    · obtain rfl := List.mem_singleton.mp hx
      exact ⟨e, hfound, hfollows.started hrebuy⟩

end Event

/-- What the log of a history tells about the events: whatever has been created is there and as the
log tells, and of no other event has anything been told. -/
structure Told (log : List Entry) (c : Club) : Prop where
  created : ∀ x ∈ log, ∀ row, x.created? = some row → ∃ e ∈ c.events, e.id = row.id ∧
    e.semesterId = row.semesterId ∧ e.createdAt = row.createdAt ∧ e.Chronicled log
  unknown : ∀ event ∉ c.events.map (·.id), ∀ x ∈ log, x.Spares event

namespace Told

theorem empty : Told [] Club.empty where
  created _ hx := absurd hx List.not_mem_nil
  unknown _ _ _ hx := absurd hx List.not_mem_nil

theorem append_failed (h : Told log c)
    (hentries : ∀ x ∈ entries, ∃ cause, x.answer = .error cause) : Told (log ++ entries) c := by
  have hspares (event : EventId) (x : Entry) (hx : x ∈ entries) : x.Spares event := by
    obtain ⟨cause, hcause⟩ := hentries x hx
    exact Entry.spares_of_error hcause
  constructor
  · intro x hx row hrow
    rcases List.mem_append.mp hx with hx | hx
    · obtain ⟨e, he, hid, hsemester, htime, hlog⟩ := h.created x hx row hrow
      exact ⟨e, he, hid, hsemester, htime, hlog.append_spared (hspares e.id)⟩
    · obtain ⟨cause, hcause⟩ := hentries x hx
      obtain ⟨plan, -, hanswer⟩ := Entry.created?_eq_some hrow
      rw [hcause] at hanswer
      cases hanswer
  · intro event hnone x hx
    rcases List.mem_append.mp hx with hx | hx
    · exact h.unknown event hnone x hx
    · exact hspares event x hx

theorem concat_created {plan : EventPlan} (h : Told log c)
    (hyields : ((ServiceCall.createEvent plan).run stamp).Yields c (.event row) c') :
    row ∈ c'.events ∧ row.Chronicled
      (log ++ [⟨c, stamp, .service (.createEvent plan), .ok (.event row)⟩]) := by
  obtain ⟨e, he, heq⟩ := Work.map_yields.mp hyields
  obtain rfl := Reply.event.inj heq
  obtain ⟨-, -, hst⟩ := Service.createEvent_yields.mp he
  obtain ⟨hid, -, -, rfl, rfl⟩ := Statement.insertEvent_ok hst
  refine ⟨List.mem_append_right _ (List.mem_singleton_self _), ?_⟩
  apply Event.chronicled_of_created rfl rfl
  refine forall_mem_concat (h.unknown _ hid) ?_
  exact Entry.spares_of_done rfl ⟨rfl, rfl⟩

theorem concat {reply : Reply} (h : Told log c) (hc : c.Consistent)
    (hyields : (call.run stamp).Yields c reply c') :
    Told (log ++ [⟨c, stamp, .service call, .ok reply⟩]) c' := by
  have heffect := ServiceCall.effect hyields
  constructor
  · intro x hx row hrow
    rcases List.mem_append.mp hx with hx | hx
    · obtain ⟨e, he, hid, hsemester, htime, hlog⟩ := h.created x hx row hrow
      obtain ⟨e', he', hfollows⟩ := heffect.follows hc he
      exact ⟨e', he', hfollows.id.trans hid, hfollows.semester.trans hsemester,
        hfollows.createdAt.trans htime, hlog.concat hfollows (hc.event?_of_mem he)⟩
    · obtain rfl := List.mem_singleton.mp hx
      obtain ⟨plan, hcall, hanswer⟩ := Entry.created?_eq_some hrow
      obtain rfl := Call.service.inj hcall
      obtain rfl := Except.ok.inj hanswer
      obtain ⟨hmem, hlog⟩ := h.concat_created hyields
      exact ⟨row, hmem, rfl, rfl, rfl, hlog⟩
  · intro event hnone
    have hbefore : event ∉ c.events.map (·.id) := by
      intro hmem
      obtain ⟨e, he, rfl⟩ := List.mem_map.mp hmem
      obtain ⟨e', he', hfollows⟩ := heffect.follows hc he
      exact hnone (List.mem_map.mpr ⟨e', he', hfollows.id⟩)
    refine forall_mem_concat (h.unknown event hbefore) ?_
    exact Entry.spares_of_done rfl (heffect.spares hc hbefore)

end Told

namespace Session

variable {steps more : List Step}

theorem told_after (hsteps : ∀ x ∈ steps, x.isService = true) :
    Told (start.log steps) (start.after steps).club := by
  apply service_log Told.empty ?_ ?_ hsteps
  · exact fun h hfailed => h.append_failed hfailed
  · exact fun hc h hyields => h.concat hc hyields

theorem chronicled_after (hsteps : ∀ x ∈ steps, x.isService = true) {x : Entry}
    (hx : x ∈ start.log steps) (hcreated : x.created? = some row) :
    ∃ e, (start.after steps).club.event? row.id = some e ∧ e.id = row.id ∧
      e.semesterId = row.semesterId ∧ e.createdAt = row.createdAt ∧
      e.Chronicled (start.log steps) := by
  have hc : (start.after steps).club.Consistent :=
    consistent_after fun y hy => Step.isProgram_of_isService (hsteps y hy)
  obtain ⟨e, he, hid, hrest⟩ := (told_after hsteps).created x hx row hcreated
  exact ⟨e, hid ▸ hc.event?_of_mem he, hid, hrest⟩

end Session

/-- Ends of an event and their undoing take turns, an end being the first, and the last of them has
set the state. The rebuys are the calls for a rebuy that have succeeded, each while the event was
started. Other calls change neither, and nothing changes the identifier, the semester and the time
of creation. -/
theorem lifecycle_determines_event {steps : List Step} (hsteps : ∀ x ∈ steps, x.isService = true)
    {x : Entry} (hx : x ∈ Session.start.log steps) {row : Event}
    (hcreated : x.created? = some row) :
    let s := Session.start.after steps
    let log := Session.start.log steps
    let turns := log.filterMap (Entry.turn? row.id)
    ∃ e, s.club.event? row.id = some e ∧ e.id = row.id ∧ e.semesterId = row.semesterId ∧
      e.createdAt = row.createdAt ∧
      turns.IsChain (· ≠ ·) ∧ (∀ first ∈ turns.head?, first = .ended) ∧
      (e.state = .ended ↔ turns.getLast? = some .ended) ∧
      e.rebuys = log.countP (Entry.rebuys row.id) ∧
      (∀ y ∈ log, y.rebuys row.id = true →
        ∃ e₀, y.before.event? row.id = some e₀ ∧ e₀.state = .started) ∧
      ∀ more, (∀ y ∈ more, y.isService = true) → (∀ y ∈ s.log more, y.Spares row.id) →
        ∃ e', (s.after more).club.event? row.id = some e' ∧ e'.state = e.state ∧
          e'.rebuys = e.rebuys := by
  intro s log turns
  obtain ⟨e, hfound, hid, hsemester, htime, hlog⟩ := Session.chronicled_after hsteps hx hcreated
  obtain ⟨hturns, hstate, hrebuys, hstarted⟩ := hlog
  rw [hid] at hturns hstate hrebuys hstarted
  refine ⟨e, hfound, hid, hsemester, htime, hturns.tail, ?_, ?_, hrebuys, hstarted, ?_⟩
  · intro first hfirst
    have hne : EventState.started ≠ first := hturns.rel_head? hfirst
    cases first
    · exact absurd rfl hne
    · rfl
  · have hlast : e.state = turns.getLast?.getD .started := by
      rw [stages, List.getLast?_cons] at hstate
      exact (Option.some.inj hstate).symm
    rw [hlast]
    cases turns.getLast? <;> simp
  · intro more hmore hspared
    have hsteps' : ∀ y ∈ steps ++ more, y.isService = true :=
      List.forall_mem_append.mpr ⟨hsteps, hmore⟩
    have hlogs : Session.start.log (steps ++ more) = log ++ s.log more := Session.log_append more
    obtain ⟨e', hfound', hid', -, -, hlog'⟩ :=
      Session.chronicled_after hsteps' (hlogs ▸ List.mem_append_left _ hx) hcreated
    obtain ⟨-, hstate', hrebuys', -⟩ := hlog'
    rw [hid', hlogs, stages_append_spared hspared, hstate] at hstate'
    rw [hid', hlogs, List.countP_append, countP_rebuys_of_spares hspared, ← hrebuys] at hrebuys'
    rw [Session.after_append] at hfound'
    exact ⟨e', hfound', (Option.some.inj hstate').symm, hrebuys'⟩

/-! ## An event that is started again

Of three rebuys the second one comes when the event has ended, and the end is undone before the
third.
-/

namespace Comeback

open Night (uuid time terms)

def steps : List Step :=
  [.call ⟨uuid 1, time 1⟩ (.service (.createSemester terms)),
    .call ⟨uuid 2, time 2⟩ (.service (.createMembership ⟨uuid 1⟩ ⟨uuid 91⟩ false false)),
    .call ⟨uuid 4, time 4⟩ (.service (.createEvent (Night.event (time 50)).toEventPlan)),
    .call ⟨uuid 5, time 5⟩ (.service (.enterEvent ⟨uuid 4⟩ ⟨uuid 2⟩)),
    .call ⟨uuid 6, time 6⟩ (.service (.newRebuy ⟨uuid 4⟩)),
    .call ⟨uuid 7, time 7⟩ (.service (.endEvent ⟨uuid 4⟩)),
    .call ⟨uuid 8, time 8⟩ (.service (.newRebuy ⟨uuid 4⟩)),
    .call ⟨uuid 9, time 9⟩ (.service (.undoEndEvent ⟨uuid 4⟩)),
    .call ⟨uuid 10, time 10⟩ (.service (.newRebuy ⟨uuid 4⟩))]

end Comeback

theorem comeback_determines_event :
    let s := Session.start.after Comeback.steps
    let turns := (Session.start.log Comeback.steps).filterMap (Entry.turn? ⟨Night.uuid 4⟩)
    turns = [.ended, .started] ∧ ∃ e, s.club.event? ⟨Night.uuid 4⟩ = some e ∧
      (e.state = .ended ↔ turns.getLast? = some .ended) ∧ e.rebuys = 2 := by
  intro s turns
  have hcreated : ((Session.start.log Comeback.steps).get ⟨2, by decide +kernel⟩).created? =
      some (Night.event (Night.time 50)) := by decide +kernel
  have hcount : (Session.start.log Comeback.steps).countP (Entry.rebuys ⟨Night.uuid 4⟩) = 2 := by
    decide +kernel
  obtain ⟨e, he, -, -, -, -, -, hstate, hrebuys, -⟩ :=
    lifecycle_determines_event (by decide +kernel) (List.get_mem _ _) hcreated
  exact ⟨by decide +kernel, e, he, hstate, hrebuys.trans hcount⟩

end CardClub
