import CardClub.Proofs.Settled

/-!
# Placements while an event has ended

In every state that services can reach, an event that has ended has all of its field signed out and
placed from 1 on without gaps, in the order in which participants are listed: late sign-outs first.
Identifiers that grow from call to call make the earlier entry win a tie.
-/

namespace CardClub

open Club

variable {c c' : Club} {stamp : Stamp} {call : ServiceCall}

/-- A call of a service keeps the identifiers of the participants, or it enters one participant with
the identifier that it has drawn. -/
theorem ServiceCall.Effect.participant_ids (h : call.Effect stamp c c') (hc : c.Consistent) :
    c'.participants.map (·.id) = c.participants.map (·.id) ∨
      (Step.call stamp (.service call)).drawn? = some stamp.uuid ∧
        c'.participants.map (·.id) = c.participants.map (·.id) ++ [⟨stamp.uuid⟩] := by
  cases h with
  | entered he hopen hm hsemester hst =>
      obtain ⟨-, -, -, -, rfl, -⟩ := Statement.insertParticipant_ok hst
      exact .inr ⟨rfl, List.map_append⟩
  | signedOut | signedIn => exact .inl (map_replaceWhere fun _ _ _ => rfl)
  | ended hyields =>
      obtain ⟨e, awards, deltas, rankings, -, -, -, -, -, -, -, rfl⟩ :=
        (Service.endEvent_yields hc).mp hyields
      exact .inl (map_replaceWhere fun _ _ _ => rfl)
  | endUndone hyields =>
      obtain ⟨e, deltas, rankings, -, -, -, -, -, rfl⟩ :=
        (Service.undoEndEvent_yields hc).mp hyields
      exact .inl rfl
  | _ => exact .inl rfl

namespace Session

variable {steps : List Step}

/-- The participants stand in the table in the order in which their identifiers were drawn. -/
theorem participant_ids_sublist (hsteps : ∀ x ∈ steps, x.isService = true) :
    ((start.after steps).club.participants.map (·.id)).Sublist
      ((steps.filterMap Step.drawn?).map Id.mk) := by
  apply service_history (P := fun steps =>
    ((start.after steps).club.participants.map (·.id)).Sublist
      ((steps.filterMap Step.drawn?).map Id.mk)) (List.Sublist.refl _) ?_ hsteps
  intro steps x _ hx hc ih
  rw [after_concat, List.filterMap_append, List.map_append]
  have hkept := ih.trans (List.sublist_append_left _ (([x].filterMap Step.drawn?).map Id.mk))
  rcases step_service hx with ⟨hclub, -⟩ | ⟨stamp, call, reply, rfl, hyields, -⟩
  · rwa [hclub]
  · rcases (ServiceCall.effect hyields).participant_ids hc with hsame | ⟨hdrawn, hnew⟩
    · rwa [hsame]
    · rw [hnew, List.filterMap_cons_some hdrawn]
      exact ih.append (List.Sublist.refl _)

theorem field_ascending (hsteps : ∀ x ∈ steps, x.isService = true) (hgrow : idsGrow steps)
    (event : EventId) : ((start.after steps).club.field event).Pairwise fun p q => p.id < q.id := by
  have hdrawn : ((steps.filterMap Step.drawn?).map Id.mk).Pairwise
      fun (a b : ParticipantId) => a < b := List.pairwise_map.mpr hgrow
  have hids := hdrawn.sublist (participant_ids_sublist hsteps)
  exact (List.pairwise_map.mp hids).sublist List.filter_sublist

end Session

/-- While an event has ended, all of its field are signed out and listed with the placements from 1
on. Later sign-outs have better placements, and of equal ones the earlier entry does, when
identifiers grow. -/
theorem ended_field_placed {steps : List Step} (hsteps : ∀ x ∈ steps, x.isService = true)
    {e : Event} (he : e ∈ (Session.start.after steps).club.events) (hended : e.state = .ended) :
    let s := Session.start.after steps
    (∀ p ∈ s.club.field e.id, ∃ t, p.signedOutAt = some t) ∧
      (∃ ps, (Service.listParticipants e.id).run s = (.ok ps, s) ∧ ps.Perm (s.club.field e.id) ∧
        ps.map (·.placement) = List.range' 1 (s.club.field e.id).length) ∧
      (∀ p ∈ s.club.field e.id, ∀ q ∈ s.club.field e.id, ∀ t u, p.signedOutAt = some t →
        q.signedOutAt = some u → u < t → p.placement < q.placement) ∧
      (idsGrow steps → (s.club.field e.id).Pairwise fun p q =>
        p.signedOutAt = q.signedOutAt → p.placement < q.placement) := by
  intro s
  have hc : s.club.Consistent :=
    Session.consistent_after fun x hx => Step.isProgram_of_isService (hsteps x hx)
  have hsettled : s.club.Settled e := Session.allSettled_after hsteps e he (hended ▸ rfl)
  refine ⟨fun p hp => Option.isSome_iff_exists.mp (hsettled.signedOut p hp), ?_, ?_, ?_⟩
  · refine ⟨s.club.participantsOf e.id, ?_, s.club.participantsOf_perm e.id, hsettled.placements⟩
    have hfound : s.club.event? e.id = some e := hc.event?_of_mem he
    have hget : (Service.getEvent e.id).run s = (.ok e, s) := by
      change (Service.found .event e.id.uuid (s.club.event? e.id)).run s = _
      rw [hfound]
      rfl
    rw [Service.listParticipants, Work.bind_run, hget]
    rfl
  · intro p hp q hq t u ht hu hlt
    rw [hsettled.placement_lt_iff hc hp hq, ← Bool.not_eq_true, listedBefore_of_signedOut hu ht]
    simp only [Instant.lt_def, Instant.eq_iff] at hlt ⊢
    omega
  · intro hgrow
    refine (Session.field_ascending hsteps hgrow e.id).imp_of_mem fun {p q} hp hq hlt htime => ?_
    obtain ⟨t, ht⟩ := Option.isSome_iff_exists.mp (hsettled.signedOut q hq)
    rw [hsettled.placement_lt_iff hc hp hq, ← Bool.not_eq_true,
      listedBefore_of_signedOut ht (htime.trans ht)]
    rw [Id.lt_def] at hlt
    simp only [Instant.lt_def, Id.le_def]
    omega

theorem night_field_placed :
    let s := Session.start.after Night.whole
    ∃ e ∈ s.club.events, e.state = .ended ∧ (∀ p ∈ s.club.field e.id, ∃ t, p.signedOutAt = some t) ∧
      ∃ ps, (Service.listParticipants e.id).run s = (.ok ps, s) ∧ ps.Perm (s.club.field e.id) ∧
        ps.map (·.placement) = [1, 2] := by
  have he : { Night.event (Night.time 50) with state := .ended } ∈
      (Session.start.after Night.whole).club.events := by
    rw [Night.after_whole]
    decide +kernel
  have hlength : ((Session.start.after Night.whole).club.field ⟨Night.uuid 4⟩).length = 2 := by
    rw [Night.after_whole]
    decide +kernel
  obtain ⟨hsigned, ⟨ps, hrun, hperm, hplaces⟩, -⟩ := ended_field_placed Night.isService_whole he rfl
  rw [Night.event, hlength] at hplaces
  exact ⟨_, he, rfl, hsigned, ps, hrun, hperm, hplaces⟩

end CardClub
