import CardClub.Proofs.Settled

/-!
# Undoing the end of an event

Right after an end the undo cannot fail. It leaves placements and sign-out times as the end has set
them and rankings without points where there were none, and restores everything else. Ending the
event again then gives the same standings and the same tables: the sign-out times that were kept do
not change the order.
-/

namespace CardClub

open Club

variable {c c' : Club} {e row : Event} {event : EventId} {awards : List Award}
    {rankings restored : List Ranking}

theorem Participant.placedBy_placedBy (p : Participant) :
    (p.placedBy awards).placedBy awards = p.placedBy awards := by
  have hplace : (Statement.placementIn (Award.places awards) p).getD
      ((Statement.placementIn (Award.places awards) p).getD p.placement) =
      (Statement.placementIn (Award.places awards) p).getD p.placement := by
    cases Statement.placementIn (Award.places awards) p <;> rfl
  exact congrArg (fun k => { p with placement := k }) hplace

theorem Participant.leave_placedBy_self (p : Participant) (time : Instant) :
    (((p.leave time).placedBy awards).leave time).placedBy awards =
      (p.leave time).placedBy awards := by
  have hout : ((p.leave time).placedBy awards).signedOutAt = some (p.signOutOr time) := rfl
  rw [Participant.leave_of_signedOut hout, Participant.placedBy_placedBy]

namespace Club

theorem reopened_closed (hc : c.Consistent) (he : e ∈ c.events) (hopen : e.state.isEnded = false) :
    (c.closed e awards rankings).reopened { e with state := .ended } restored =
      { c with
        participants := replaceWhere (fun p => decide (p.eventId = e.id))
          (fun p => (p.leave e.startDate).placedBy awards) c.participants
        rankings := restored } := by
  have hstarted : { e with state := .started } = e := by
    obtain ⟨plan, id, state, rebuys, createdAt⟩ := e
    cases state with
    | started => rfl
    | ended => cases hopen
  have hevents : ((c.closed e awards rankings).reopened
      { e with state := .ended } restored).events = c.events := by
    have htwice : ((c.closed e awards rankings).reopened
        { e with state := .ended } restored).events =
        replaceWhere (fun x => decide (x.id = e.id)) (fun _ => { e with state := .started })
          (replaceWhere (fun x => decide (x.id = e.id)) (fun _ => { e with state := .ended })
            c.events) := rfl
    rw [htwice, replaceWhere_replaceWhere, hstarted]
    · exact hc.putEvent_self he
    · exact fun _ _ _ => decide_eq_true rfl
  exact congrArg (fun events => { c with
    events
    participants := replaceWhere (fun p => decide (p.eventId = e.id))
      (fun p => (p.leave e.startDate).placedBy awards) c.participants
    rankings := restored }) hevents

theorem field_reopened_closed :
    ((c.closed e awards rankings).reopened row restored).field e.id =
      (c.field e.id).map fun p => (p.leave e.startDate).placedBy awards :=
  field_closed e rankings

theorem finishers_reopened_closed :
    ((c.closed e awards rankings).reopened row restored).finishers e =
      (c.finishers e).map (Participant.placedBy awards) := by
  have hsort := mergeSort_map_listed (f := Participant.placedBy awards)
    (l := (c.field e.id).map (Participant.leave e.startDate)) (fun _ => rfl) fun _ => rfl
  rw [finishers, field_reopened_closed, finishers, ← hsort, List.map_map, List.map_map]
  rfl

theorem closed_reopened_closed (hc : c.Consistent) (he : e ∈ c.events)
    (hopen : e.state.isEnded = false) :
    ((c.closed e awards rankings).reopened { e with state := .ended } restored).closed
      e awards rankings = c.closed e awards rankings := by
  rw [reopened_closed hc he hopen]
  have hparticipants : replaceWhere (fun p => decide (p.eventId = e.id))
      (fun p => (p.leave e.startDate).placedBy awards)
      (replaceWhere (fun p => decide (p.eventId = e.id))
        (fun p => (p.leave e.startDate).placedBy awards) c.participants) =
      (c.closed e awards rankings).participants := by
    rw [replaceWhere_replaceWhere]
    · simp only [Participant.leave_placedBy_self]
      rfl
    · exact fun _ _ hp => hp
  exact congrArg (fun participants => { c.closed e awards rankings with participants })
    hparticipants

end Club

/-! ## Plans before and after -/

/-- The reversal right after the end takes back what has been awarded. -/
theorem planReversal_closed (hc : c.Consistent)
    (hplan : planAwards (c.finishers e) e.multiplier = .ok awards)
    (hsettled : (c.closed e awards rankings).Settled { e with state := .ended }) :
    planReversal ((c.closed e awards rankings).participantsOf e.id) e.multiplier =
      .ok (awards.map Award.debit) := by
  obtain ⟨hcount, hseats, hplaces, hpoints⟩ := planAwards_ok.mp hplan
  have hlength : ((c.closed e awards rankings).participantsOf e.id).length =
      (c.finishers e).length := by
    rw [participantsOf_closed, List.length_map]
  apply planReversal_ok.mpr
  rw [placed_of_pos hsettled.placement_pos, hlength]
  refine ⟨hcount, ?_, ?_, fun a ha => ?_⟩
  · have hsame : Participant.seats ((c.closed e awards rankings).participantsOf e.id) =
        Participant.seats (c.finishers e) := by
      rw [participantsOf_closed, Participant.seats, List.map_map]
      rfl
    rw [hsame, ← hseats, Award.seats, List.map_map]
    rfl
  · rw [participantsOf_closed, placements_placedBy (hc.finishers_ids e) hseats, List.map_map]
    rfl
  · obtain ⟨b, hb, rfl⟩ := List.mem_map.mp ha
    have hb := hpoints b hb
    refine ⟨?_, fitsPoints_neg (awardPoints_nonneg hb) (awardPoints_fits hb)⟩
    rw [Award.debit, Int.neg_neg]
    exact hb

theorem planAwards_placedBy {l : List Participant} {multiplier : Decimal}
    (hplan : planAwards l multiplier = .ok awards) :
    planAwards (l.map (Participant.placedBy awards)) multiplier = .ok awards := by
  obtain ⟨hcount, hseats, hplaces, hpoints⟩ := planAwards_ok.mp hplan
  have hsame : Participant.seats (l.map (Participant.placedBy awards)) = Participant.seats l := by
    rw [Participant.seats, List.map_map]
    rfl
  apply planAwards_ok.mpr
  rw [List.length_map, hsame]
  exact ⟨hcount, hseats, hplaces, hpoints⟩

theorem netDeltas_debits_of_plan {l : List Participant} {multiplier : Decimal}
    {deltas : List (MembershipId × Int)} (hplan : planAwards l multiplier = .ok awards)
    (hnet : netDeltas awards = .ok deltas) :
    netDeltas (awards.map Award.debit) = .ok (negated deltas) := by
  obtain ⟨-, -, -, hpoints⟩ := planAwards_ok.mp hplan
  exact netDeltas_debits hnet fun a ha => awardPoints_nonneg (hpoints a ha)

/-! ## The calls one after the other -/

/-- Right after an end, undoing it succeeds and restores the tables apart from the field of the
event, which stays signed out and placed, and from rankings without points for those who had none.
Ending the event again gives the same standings and the same tables. -/
theorem end_undo_end {steps : List Step} (hsteps : ∀ x ∈ steps, x.isProgram = true)
    {event : EventId} {answer : Standings} {c₁ : Club}
    (hend : (Service.endEvent event).Yields (Session.start.after steps).club answer c₁) :
    let c := (Session.start.after steps).club
    ∃ (e : Event) (fresh : List MembershipId) (c₂ : Club), c.event? event = some e ∧
      (Service.undoEndEvent event).Yields c₁ (answer.awards.map Award.debit) c₂ ∧
      c₂ = { c with
        participants := c.participants.map fun p =>
          if p.eventId = event then (p.leave e.startDate).placedBy answer.awards else p
        rankings := c.rankings ++ fresh.map fun m => ⟨m, 0, 0⟩ } ∧
      (answer.awards.map (·.participantId)).Perm ((c.field event).map (·.id)) ∧
      answer.awards.map (·.placement) = List.range' 1 (c.field event).length ∧
      fresh.Nodup ∧
      (∀ m, m ∈ fresh ↔ m ∈ (c.field event).map (·.membershipId) ∧ c.ranking? m = none) ∧
      (Service.endEvent event).Yields c₂ answer c₁ := by
  intro c
  have hc : c.Consistent := Session.consistent_after hsteps
  have hc₁ : c₁.Consistent := (Service.composed_endEvent event).consistent hend hc
  obtain ⟨e, awards, deltas, rankings, he, hopen, hplan, hnet, hfold, hsmall, rfl, rfl⟩ :=
    (Service.endEvent_yields hc).mp hend
  obtain ⟨hmem, rfl⟩ := Statement.event?_eq_some he
  obtain ⟨-, hseats, hplaces, -⟩ := planAwards_ok.mp hplan
  obtain ⟨-, hkeys, hnodup⟩ := netDeltas_ok hnet
  -- on the rankings the two calls cancel but for the rows that the end has made
  obtain ⟨fresh, hfresh, hmemfresh, hundo, hredo⟩ :=
    creditAll_round_trip (fun r hr => (hc.rankings_admissible r hr).points) hc.ranking_ids hnodup
      hfold
  have hended : { e with state := .ended } ∈ (c.closed e awards rankings).events := by
    refine mem_replaceWhere.mpr ⟨e, hmem, ?_⟩
    rw [if_pos (decide_eq_true rfl)]
  -- the end has settled the event, so the reversal finds every placement of the plan
  have hundone : (Service.undoEndEvent e.id).Yields (c.closed e awards rankings)
      (awards.map Award.debit) ((c.closed e awards rankings).reopened { e with state := .ended }
        (c.rankings ++ fresh.map fun m => ⟨m, 0, 0⟩)) :=
    (Service.undoEndEvent_yields hc₁).mpr ⟨{ e with state := .ended }, negated deltas, _,
      hc₁.event?_of_mem hended, rfl,
      planReversal_closed hc hplan (settled_closed hc hplan hnet hfold),
      netDeltas_debits_of_plan hplan hnet, hundo, rfl⟩
  have hc₂ : ((c.closed e awards rankings).reopened { e with state := .ended }
      (c.rankings ++ fresh.map fun m => ⟨m, 0, 0⟩)).Consistent :=
    (Service.composed_undoEndEvent e.id).consistent hundone hc₁
  have hfound : ((c.closed e awards rankings).reopened { e with state := .ended }
      (c.rankings ++ fresh.map fun m => ⟨m, 0, 0⟩)).event? e.id = some e := by
    rw [reopened_closed hc hmem hopen]
    exact he
  refine ⟨e, fresh, _, he, hundone, ?_, ?_, ?_, hfresh, fun m => ?_, ?_⟩
  · rw [reopened_closed hc hmem hopen]
    simp [replaceWhere]
  · exact Award.ids_perm hseats
  · rw [hplaces, length_finishers]
  · rw [hmemfresh, hkeys, (Award.memberships_perm hseats).mem_iff, Club.ranking?, find?_key_eq_none]
  · refine (Service.endEvent_yields hc₂).mpr
      ⟨e, awards, deltas, rankings, hfound, hopen, ?_, hnet, hredo,
        hsmall, rfl, (closed_reopened_closed hc hmem hopen).symm⟩
    -- the stamps that were kept are those that the second end would set
    rw [finishers_reopened_closed]
    exact planAwards_placedBy hplan

theorem night_end_undo_end :
    let c₁ :=
      (Night.club (Night.time 50)).closed (Night.event (Night.time 50)) Night.awards Night.rankings
    ∃ c₂, (Service.undoEndEvent ⟨Night.uuid 4⟩).Yields c₁ (Night.awards.map Award.debit) c₂ ∧
      c₂.events = (Night.club (Night.time 50)).events ∧
      (Service.endEvent ⟨Night.uuid 4⟩).Yields c₂ ⟨⟨Night.uuid 4⟩, 2, Night.awards⟩ c₁ := by
  intro c₁
  have hend : (Service.endEvent ⟨Night.uuid 4⟩).Yields
      (Session.start.after (Night.steps (Night.time 50))).club
      ⟨⟨Night.uuid 4⟩, 2, Night.awards⟩ c₁ := by
    rw [Night.after_steps]
    exact Night.ends
  obtain ⟨e, fresh, c₂, -, hundone, rfl, -, -, -, -, hagain⟩ :=
    end_undo_end (by decide +kernel) hend
  rw [Night.after_steps] at hundone hagain
  exact ⟨_, hundone, rfl, hagain⟩

end CardClub
