import CardClub.Proofs.Money
import CardClub.Proofs.Settled

/-!
# Amending an event

An update sets some of the descriptive fields of one event and nothing else. Two updates in a row
come to one, in which the set fields of the second override those of the first. Whether an update is
let through depends on the state of the event and on the value of its multiplier, and after the
first update both are as the single one finds them.
-/

namespace CardClub

open Work

variable {c c' : Club} {e row : Event}

namespace EventUpdate

variable {update first second : EventUpdate} {plan : EventPlan} {a b : Decimal}

/-- What an update makes of an event: each of five fields is as it was or as its column keeps what
the update gives, and the other fields are as they were. -/
structure Amends (update : EventUpdate) (e row : Event) : Prop where
  structureId : row.structureId = update.structureId.getD e.structureId
  name : row.name = update.name.getD e.name
  location : row.location = update.location.or e.location
  startDate : row.startDate = (update.startDate.map Instant.stored).getD e.startDate
  multiplier : row.multiplier = (update.multiplier.map Decimal.stored).getD e.multiplier
  id : row.id = e.id
  semesterId : row.semesterId = e.semesterId
  state : row.state = e.state
  rebuys : row.rebuys = e.rebuys
  createdAt : row.createdAt = e.createdAt

theorem amends_apply (update : EventUpdate) (e : Event) :
    update.Amends e { e with toEventPlan := update.apply e.toEventPlan } := by
  constructor <;> rfl

/-! ## One update for two -/

theorem fault?_eq_none :
    update.fault? = none ↔
      update.name.bind eventNameFault? = none ∧ update.multiplier.bind multiplierFault? = none :=
  Option.or_eq_none_iff

theorem fault?_override (hfirst : first.fault? = none) (hsecond : second.fault? = none) :
    (first.override second).fault? = none := by
  obtain ⟨hname, hmultiplier⟩ := fault?_eq_none.mp hfirst
  obtain ⟨hname', hmultiplier'⟩ := fault?_eq_none.mp hsecond
  refine fault?_eq_none.mpr ⟨?_, ?_⟩
  · cases hset : second.name with
    | none => simpa [override, hset] using hname
    | some name => simpa [override, hset] using hname'
  · cases hset : second.multiplier with
    | none => simpa [override, hset] using hmultiplier
    | some multiplier => simpa [override, hset] using hmultiplier'

theorem changesMultiplier_eq_false :
    update.changesMultiplier a = false ↔ ∀ m, update.multiplier = some m → m.value = a.value := by
  cases h : update.multiplier <;> simp [changesMultiplier, h, Decimal.sameValue_iff]

/-- Where neither of two updates changes the multiplier, the one for both does not. -/
theorem changesMultiplier_override (hfirst : first.changesMultiplier plan.multiplier = false)
    (hsecond : second.changesMultiplier (first.apply plan).multiplier = false) :
    (first.override second).changesMultiplier plan.multiplier = false := by
  have hvalue : plan.multiplier.value = (first.apply plan).multiplier.value :=
    Decimal.sameValue_iff.mp (first.sameValue_apply hfirst)
  rw [changesMultiplier_eq_false] at hfirst hsecond ⊢
  intro m hm
  cases hset : second.multiplier with
  | none => exact hfirst m (by simpa [override, hset] using hm)
  | some m' =>
      obtain rfl : m' = m := by simpa [override, hset] using hm
      rw [hsecond m' hset, hvalue]

end EventUpdate

/-! ## The row of an event -/

namespace Statement

theorem event?_putEvent {id : EventId} (he : c.event? id = some e) (hid : row.id = id) :
    (putEvent c row).event? id = some row := by
  subst hid
  have hfind : (putEvent c row).event? row.id = (c.event? row.id).map fun _ => row :=
    find?_replaceWhere_self fun _ _ => rfl
  rw [hfind, he, Option.map_some]

theorem putEvent_putEvent {again : Event} (hid : again.id = row.id) :
    putEvent (putEvent c row) again = putEvent c again := by
  simp only [putEvent, hid]
  rw [replaceWhere_replaceWhere fun _ _ _ => by simp]

end Statement

namespace Service

variable {event : EventId} {update first second : EventUpdate}

/-- An update succeeds exactly if its fields are in order, there is such an event, which keeps the
value of its multiplier if it has ended, and the new multiplier can be stored. -/
theorem updateEvent_yields_iff :
    (updateEvent event update).Yields c row c' ↔ update.fault? = none ∧
      ∃ e, c.event? event = some e ∧
        (e.state.isEnded = true → update.changesMultiplier e.multiplier = false) ∧
        row = { e with toEventPlan := update.apply e.toEventPlan } ∧
        row.multiplier.isNegative = false ∧ c' = Statement.putEvent c row := by
  rw [updateEvent_yields]
  refine and_congr_right fun _ => exists_congr fun e => and_congr_right fun he => ?_
  have hguard : (e.state.isEnded && update.changesMultiplier e.multiplier) = false ↔
      (e.state.isEnded = true → update.changesMultiplier e.multiplier = false) := by
    cases e.state.isEnded <;> simp
  rw [hguard]
  refine and_congr_right fun _ => ?_
  rw [Statement.updateEvent, he]
  dsimp only
  split
  · next hnegative =>
    constructor
    · intro h
      cases h
    · rintro ⟨rfl, hmultiplier, -⟩
      rw [hnegative] at hmultiplier
      cases hmultiplier
  · next hmultiplier =>
    rw [Bool.not_eq_true] at hmultiplier
    constructor
    · intro h
      obtain ⟨hrow, rfl⟩ := Prod.mk.inj (Except.ok.inj h)
      obtain rfl := Option.some.inj hrow
      exact ⟨rfl, hmultiplier, rfl⟩
    · rintro ⟨rfl, -, rfl⟩
      rfl

/-- What two updates in a row do, the one update does in which the second overrides the first. -/
theorem updateEvent_override {e₁ e₂ : Event} {c₁ c₂ : Club}
    (hfirst : (updateEvent event first).Yields c e₁ c₁)
    (hsecond : (updateEvent event second).Yields c₁ e₂ c₂) :
    (updateEvent event (first.override second)).Yields c e₂ c₂ := by
  obtain ⟨hfault, e, he, hfrozen, hrow, -, rfl⟩ := updateEvent_yields_iff.mp hfirst
  obtain ⟨hfault', e', he', hfrozen', hrow', hmultiplier, rfl⟩ := updateEvent_yields_iff.mp hsecond
  have hid : e₁.id = event := hrow ▸ (Statement.event?_eq_some he).2
  have hid' : e₂.id = e₁.id := by
    rw [hrow', (Statement.event?_eq_some he').2, hid]
  -- the second update finds the row that the first has left
  obtain rfl : e₁ = e' := Option.some.inj ((Statement.event?_putEvent he hid).symm.trans he')
  refine updateEvent_yields_iff.mpr ⟨EventUpdate.fault?_override hfault hfault', e, he,
    fun hended => ?_, ?_, hmultiplier, Statement.putEvent_putEvent hid'⟩
  · subst hrow
    exact EventUpdate.changesMultiplier_override (hfrozen hended) (hfrozen' hended)
  · rw [hrow', hrow, EventUpdate.apply_override]

end Service

/-- In every state that can be reached, two updates that succeed in a row come to one: the update in
which the set fields of the second override those of the first succeeds as well, with the same
answer and the same tables. Whatever update succeeds replaces one row. The new row has in five
fields what the update gives, as their columns keep it, or what it had, and is else as it was. The
update of an event that has ended gives no multiplier of another value. -/
theorem event_updates_compose {steps : List Step} (hsteps : ∀ x ∈ steps, x.isProgram = true)
    (event : EventId) :
    let c := (Session.start.after steps).club
    (∀ first second e₁ e₂ c₁ c₂, (Service.updateEvent event first).Yields c e₁ c₁ →
      (Service.updateEvent event second).Yields c₁ e₂ c₂ →
      (Service.updateEvent event (first.override second)).Yields c e₂ c₂) ∧
    ∀ update row c', (Service.updateEvent event update).Yields c row c' →
      ∃ e before after, e.id = event ∧ update.Amends e row ∧
        c.events = before ++ e :: after ∧ c' = { c with events := before ++ row :: after } ∧
        (e.state = .ended → ∀ m, update.multiplier = some m → m.value = e.multiplier.value) := by
  intro c
  refine ⟨fun _ _ _ _ _ _ => Service.updateEvent_override, fun update row c' h => ?_⟩
  have hc : c.Consistent := Session.consistent_after hsteps
  obtain ⟨-, e, he, hfrozen, hrow, -, rfl⟩ := Service.updateEvent_yields_iff.mp h
  obtain ⟨hmem, hid⟩ := Statement.event?_eq_some he
  obtain ⟨before, after, hevents, hreplace⟩ := exists_replaceWhere_eq hc.event_ids hmem
  have hamends : update.Amends e row := hrow ▸ update.amends_apply e
  refine ⟨e, before, after, hid, hamends, hevents, ?_, fun hended => ?_⟩
  · rw [Statement.putEvent, hamends.id, hreplace]
  · exact EventUpdate.changesMultiplier_eq_false.mp (hfrozen (hended ▸ rfl))

/-! ## Updates of the small night

The event is renamed and postponed, then renamed once more. The day it is postponed to is given to
the nanosecond, which is more than the table keeps.
-/

namespace Postponed

open Night (uuid time)

def first : EventUpdate :=
  ⟨none, some "Turbo", none, Instant.ofParts? 60 123456789, Decimal.ofParts? 15 1⟩

def second : EventUpdate := ⟨none, some "Final", some "Cellar", none, none⟩

def after : Event :=
  { Night.event (time 50) with
    name := "Turbo"
    startDate := (Instant.ofParts? 60 123457000).getD .epoch
    multiplier := (Decimal.ofParts? 15 1).getD .one }

theorem first_yields : (Service.updateEvent ⟨uuid 4⟩ first).Yields (Night.club (time 50)) after
    { Night.club (time 50) with events := [after] } :=
  Service.updateEvent_yields_iff.mpr ⟨by decide +kernel, Night.event (time 50), by decide +kernel,
    nofun, by decide +kernel, by decide +kernel, by decide +kernel⟩

theorem second_yields : (Service.updateEvent ⟨uuid 4⟩ second).Yields
    { Night.club (time 50) with events := [after] }
    { after with name := "Final", location := some "Cellar" }
    { Night.club (time 50) with
      events := [{ after with name := "Final", location := some "Cellar" }] } :=
  Service.updateEvent_yields_iff.mpr ⟨by decide +kernel, after, by decide +kernel,
    nofun, by decide +kernel, by decide +kernel, by decide +kernel⟩

end Postponed

theorem two_amendments_compose :
    let final : Event := { Postponed.after with name := "Final", location := some "Cellar" }
    (∀ x ∈ Night.steps (Night.time 50), x.isProgram = true) ∧
      (Service.updateEvent ⟨Night.uuid 4⟩
          ⟨none, some "Final", some "Cellar", Instant.ofParts? 60 123456789,
            Decimal.ofParts? 15 1⟩).Yields
        (Night.club (Night.time 50)) final { Night.club (Night.time 50) with events := [final] } ∧
      ∃ e, e.id = ⟨Night.uuid 4⟩ ∧ Postponed.first.Amends e Postponed.after := by
  intro final
  have hsteps : ∀ x ∈ Night.steps (Night.time 50), x.isProgram = true := by decide +kernel
  have hcompose := event_updates_compose hsteps ⟨Night.uuid 4⟩
  rw [Night.after_steps] at hcompose
  obtain ⟨hboth, hone⟩ := hcompose
  obtain ⟨e, -, -, hid, hamends, -⟩ := hone _ _ _ Postponed.first_yields
  exact ⟨hsteps, hboth _ _ _ _ _ _ Postponed.first_yields Postponed.second_yields,
    e, hid, hamends⟩

/-- The date that the event is postponed to is not the date that it then has. -/
theorem postponed_to_another_instant :
    let s := Session.start.after (Night.steps (Night.time 50))
    (∀ x ∈ Night.steps (Night.time 50), x.isProgram = true) ∧
      ∃ row c', (Service.updateEvent ⟨Night.uuid 4⟩ Postponed.first).Yields s.club row c' ∧
        Postponed.first.startDate.isSome = true ∧
        Postponed.first.startDate ≠ some row.startDate ∧
        row.startDate ≠ (Night.event (Night.time 50)).startDate := by
  intro s
  have hclub : s.club = Night.club (Night.time 50) := congrArg Session.club Night.after_steps
  exact ⟨by decide +kernel, Postponed.after, _, hclub ▸ Postponed.first_yields,
    by decide +kernel, by decide +kernel, by decide +kernel⟩

end CardClub
