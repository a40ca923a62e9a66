import CardClub.Proofs.Settled

/-!
# Stragglers

When an event ends, whoever is still at the table is signed out at the start of the event. This does
not by itself put them last: they finish behind those who have signed out after the start, and ahead
of those who have signed out before it.
-/

namespace CardClub

open Club

variable {c : Club} {e : Event} {awards : List Award} {deltas : List (MembershipId × Int)}
  {rankings : List Ranking} {x y : Participant} {t : Instant}

namespace Club

theorem mem_field_closed (hx : x ∈ c.field e.id) :
    (x.leave e.startDate).placedBy awards ∈ (c.closed e awards rankings).field e.id := by
  rw [field_closed]
  exact List.mem_map_of_mem (f := fun p => (p.leave e.startDate).placedBy awards) hx

theorem eq_of_mem_closed (hc : (c.closed e awards rankings).Consistent) (hx : x ∈ c.field e.id)
    {p : Participant} (hp : p ∈ (c.closed e awards rankings).participants) (hid : p.id = x.id) :
    p = (x.leave e.startDate).placedBy awards :=
  List.inj_on_of_nodup_map hc.participant_ids hp (mem_field.mp (mem_field_closed hx)).1 hid

/-- A straggler finishes behind another one exactly when the event has started before the sign-out
of the other, or at the same time when the identifier of the other is the smaller one. -/
theorem straggler_behind_iff (hc : (c.closed e awards rankings).Consistent)
    (hsettled : (c.closed e awards rankings).Settled { e with state := .ended })
    (hx : x ∈ c.field e.id) (hy : y ∈ c.field e.id) (hactive : x.signedOutAt = none)
    (hout : y.signedOutAt = some t) :
    ((y.leave e.startDate).placedBy awards).placement <
        ((x.leave e.startDate).placedBy awards).placement ↔
      e.startDate < t ∨ e.startDate = t ∧ y.id < x.id := by
  have hforced : ((x.leave e.startDate).placedBy awards).signedOutAt = some e.startDate := by
    simp [Participant.placedBy, Participant.leave, Participant.signOutOr, hactive]
  have hkept : ((y.leave e.startDate).placedBy awards).signedOutAt = some t := by
    rw [Participant.leave_of_signedOut hout]
    exact hout
  rw [hsettled.placement_lt_iff hc (mem_field_closed hy) (mem_field_closed hx), ← Bool.not_eq_true,
    listedBefore_of_signedOut hforced hkept]
  change ¬ (t < e.startDate ∨ t = e.startDate ∧ x.id ≤ y.id) ↔ _
  simp only [Instant.lt_def, Instant.eq_iff, Id.le_def, Id.lt_def]
  omega

end Club

/-- From one state of the tables to a later one, all who were still at the table have got worse
placements than all who had signed out. -/
def StragglersLast (event : EventId) (c c' : Club) : Prop :=
  ∀ x ∈ c.field event, ∀ y ∈ c.field event, x.isActive = true → y.isActive = false →
    ∀ x' ∈ c'.participants, ∀ y' ∈ c'.participants, x'.id = x.id → y'.id = y.id →
      y'.placement < x'.placement

/-- When an event ends, stragglers finish last exactly when the event starts before every sign-out
of its field; of a sign-out at the start itself, the smaller identifier finishes first. -/
theorem stragglers_last_iff {steps : List Step} (hsteps : ∀ x ∈ steps, x.isProgram = true)
    {event : EventId} {answer : Standings} {c₁ : Club}
    (hend : (Service.endEvent event).Yields (Session.start.after steps).club answer c₁) :
    let c := (Session.start.after steps).club
    ∃ e, c.event? event = some e ∧ (StragglersLast event c c₁ ↔
      ∀ x ∈ c.field event, ∀ y ∈ c.field event, ∀ t, x.signedOutAt = none → y.signedOutAt = some t →
        e.startDate < t ∨ e.startDate = t ∧ y.id < x.id) := by
  intro c
  have hc : c.Consistent := Session.consistent_after hsteps
  have hc₁ : c₁.Consistent := (Service.composed_endEvent event).consistent hend hc
  obtain ⟨e, awards, deltas, rankings, he, hopen, hplan, hnet, hfold, -, -, rfl⟩ :=
    (Service.endEvent_yields hc).mp hend
  obtain ⟨hmem, rfl⟩ := Statement.event?_eq_some he
  have hsettled := settled_closed hc hplan hnet hfold
  refine ⟨e, he, fun hlast x hx y hy t hactive hout => ?_, fun hstart x hx y hy hactive hout => ?_⟩
  · have hless := hlast x hx y hy (by simp [Participant.isActive, hactive])
      (by simp [Participant.isActive, hout]) _ (mem_field.mp (mem_field_closed hx)).1 _
      (mem_field.mp (mem_field_closed hy)).1 rfl rfl
    exact (straggler_behind_iff hc₁ hsettled hx hy hactive hout).mp hless
  · intro x' hx' y' hy' hidx hidy
    have hactive : x.signedOutAt = none := by simpa [Participant.isActive] using hactive
    obtain ⟨t, ht⟩ : ∃ t, y.signedOutAt = some t := by
      simpa [Participant.isActive, Option.isNone_eq_false_iff, Option.isSome_iff_exists] using hout
    rw [eq_of_mem_closed hc₁ hx hx' hidx, eq_of_mem_closed hc₁ hy hy' hidy]
    exact (straggler_behind_iff hc₁ hsettled hx hy hactive ht).mpr (hstart x hx y hy t hactive ht)

namespace Night

def lateAwards : List Award := [⟨⟨uuid 6⟩, ⟨uuid 3⟩, 1, 20⟩, ⟨⟨uuid 5⟩, ⟨uuid 2⟩, 2, 10⟩]

def lateRankings : List Ranking := [⟨⟨uuid 2⟩, 10, 0⟩, ⟨⟨uuid 3⟩, 20, 0⟩]

theorem club_late : (Session.start.after (steps (time 200))).club = club (time 200) := by
  decide +kernel

/-- An event that starts after the sign-out is won by the player who is still at the table. -/
theorem ends_late :
    (Service.endEvent ⟨uuid 4⟩).Yields (Session.start.after (steps (time 200))).club
      ⟨⟨uuid 4⟩, 2, lateAwards⟩
      ((club (time 200)).closed (event (time 200)) lateAwards lateRankings) := by
  have hc : (club (time 200)).Consistent := club_late ▸ Session.consistent_after (by decide +kernel)
  have hfinishers : (club (time 200)).finishers (event (time 200)) =
      [⟨⟨uuid 6⟩, ⟨uuid 3⟩, ⟨uuid 4⟩, 0, some (time 200), time 6⟩,
        ⟨⟨uuid 5⟩, ⟨uuid 2⟩, ⟨uuid 4⟩, 0, some (time 70), time 5⟩] :=
    (mergeSort_pair _ _ _).trans (by decide +kernel)
  rw [club_late]
  refine (Service.endEvent_yields hc).mpr
    ⟨event (time 200), lateAwards, [(⟨uuid 2⟩, 10), (⟨uuid 3⟩, 20)], lateRankings,
      by decide +kernel, rfl, ?_, by decide +kernel, by decide +kernel, by decide +kernel, rfl, rfl⟩
  rw [hfinishers]
  decide +kernel

end Night

theorem late_night_stragglers_first :
    ∃ answer c₁, (Service.endEvent ⟨Night.uuid 4⟩).Yields
        (Session.start.after (Night.steps (Night.time 200))).club answer c₁ ∧
      ¬ StragglersLast ⟨Night.uuid 4⟩
          (Session.start.after (Night.steps (Night.time 200))).club c₁ := by
  refine ⟨_, _, Night.ends_late, fun hlast => ?_⟩
  obtain ⟨e, he, hiff⟩ := stragglers_last_iff (by decide +kernel) Night.ends_late
  have hstart := hiff.mp hlast
  rw [Night.club_late] at he hstart
  obtain rfl : Night.event (Night.time 200) = e := Option.some.inj (Eq.trans (by decide +kernel) he)
  have hbefore : Night.time 200 < Night.time 70 ∨ Night.time 200 = Night.time 70 ∧ _ :=
    hstart _ (List.mem_of_getElem? (i := 1) rfl) _ (List.mem_of_getElem? (i := 0) rfl) _ rfl rfl
  exact absurd hbefore (by decide +kernel)

end CardClub
