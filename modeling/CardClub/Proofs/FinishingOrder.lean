import CardClub.Proofs.EndEffect

/-!
# The finishing order is canonical

Where identifiers do not repeat, no two participants tie in the finishing order. So it is the only
order of a field in which everyone finishes ahead of those behind, in whatever order the field is
given, and it does not matter whether those still at the table have been signed out before. Signing
them out in the tables makes the listing of the event stand in this order.
-/

namespace CardClub

open Club

variable {l l' order : List Participant} {p q : Participant} {t : Instant}

theorem Participant.Ahead.asymm (hpq : Participant.Ahead t p q) : ¬ Participant.Ahead t q p := by
  simp only [Participant.Ahead, Instant.lt_def, Instant.eq_iff, Id.lt_def] at hpq ⊢
  omega

/-- There is only one order in which everyone finishes ahead of those behind. -/
theorem eq_finishingOrder (hids : (l.map (·.id)).Nodup) (hperm : order.Perm l)
    (hahead : order.Pairwise (Participant.Ahead t)) : order = finishingOrder t l := by
  refine List.Perm.eq_of_pairwise (fun p q _ _ hpq hqp => absurd hqp hpq.asymm) hahead
    (ahead_finishingOrder t hids) (hperm.trans (finishingOrder_perm t l).symm)

theorem finishingOrder_reordered (hids : (l.map (·.id)).Nodup) (hperm : l'.Perm l) :
    finishingOrder t l' = finishingOrder t l := by
  have hids' : (l'.map (·.id)).Nodup := (hperm.map _).nodup_iff.mpr hids
  exact eq_finishingOrder hids ((finishingOrder_perm t l').trans hperm)
    (ahead_finishingOrder t hids')

/-- Who has no time yet may be signed out before or after the field has been put in order. -/
theorem finishingOrder_leave (t : Instant) (l : List Participant) :
    finishingOrder t (l.map (Participant.leave t)) =
      (finishingOrder t l).map (Participant.leave t) := by
  have hbefore (p q : Participant) :
      finishesBefore t p q = finishesBefore t (p.leave t) (q.leave t) := rfl
  exact (List.map_mergeSort fun p _ q _ => hbefore p q).symm

/-! ## The listing after all have been signed out -/

namespace Store

variable {c c' : Club} {event : EventId} {n : Nat}

theorem field_of_forceSignOut (h : (forceSignOut event t).Yields c n c') :
    c'.field event = (c.field event).map (Participant.leave t.stored) := by
  rw [forceSignOut_yields, forceSignOut_eq_leave] at h
  obtain ⟨-, rfl⟩ := Prod.mk.inj (Except.ok.inj h)
  exact field_replaceWhere_self fun _ => rfl

theorem participantsOf_of_forceSignOut (h : (forceSignOut event t).Yields c n c') :
    c'.participantsOf event =
      (finishingOrder t.stored (c.field event)).map (Participant.leave t.stored) := by
  rw [participantsOf, field_of_forceSignOut h]
  exact (List.map_mergeSort fun p _ q _ => finishesBefore_eq_listedBefore t.stored p q).symm

theorem finishingOrder_of_forceSignOut (h : (forceSignOut event t).Yields c n c')
    (forcedAt : Instant) :
    finishingOrder forcedAt (c'.participantsOf event) = c'.participantsOf event := by
  refine finishingOrder_participantsOf forcedAt fun p hp => ?_
  rw [field_of_forceSignOut h] at hp
  obtain ⟨q, -, rfl⟩ := List.mem_map.mp hp
  rfl

end Store

/-- The finishing order is canonical. Where identifiers do not repeat, it is the one order of a
field in which everyone finishes ahead of those behind; it does not depend on the order in which the
field is given; and it puts the field in the same order if those still at the table have been signed
out before. The listing of an event stands in this order once all have been signed out. -/
theorem finishing_order_canonical :
    (∀ (t : Instant) (l : List Participant), (l.map (·.id)).Nodup →
      (finishingOrder t l).Perm l ∧ (finishingOrder t l).Pairwise (Participant.Ahead t) ∧
      (∀ order : List Participant, order.Perm l → order.Pairwise (Participant.Ahead t) →
        order = finishingOrder t l) ∧
      (∀ l' : List Participant, l'.Perm l → finishingOrder t l' = finishingOrder t l) ∧
      (finishingOrder t (l.map (Participant.leave t))).map (·.id) =
        (finishingOrder t l).map (·.id)) ∧
    ∀ (steps : List Step) (event : EventId) (t : Instant), (∀ x ∈ steps, x.isProgram = true) →
      let s := Session.start.after steps
      (s.armed = none → ∃ n s', (Store.forceSignOut event t).run s = (.ok n, s')) ∧
      ∀ n s', (Store.forceSignOut event t).run s = (.ok n, s') →
        ∃ listed, (Store.listParticipants event).run s' = (.ok listed, s') ∧
          listed = (finishingOrder t.stored (s.club.field event)).map (Participant.leave t.stored) ∧
          listed.Pairwise (Participant.Ahead t) ∧ finishingOrder t listed = listed := by
  refine ⟨fun t l hids => ⟨finishingOrder_perm t l, ahead_finishingOrder t hids,
    fun _ => eq_finishingOrder hids, fun _ => finishingOrder_reordered hids, ?_⟩,
    fun steps event t hsteps => ⟨fun harmed => ?_, fun n s' h => ?_⟩⟩
  · rw [finishingOrder_leave, List.map_map]
    rfl
  · have hrun := Store.forceSignOut_yields.mpr
      (forceSignOut_eq_leave (c := (Session.start.after steps).club) event t)
    rw [Work.Yields, ← harmed] at hrun
    exact ⟨_, _, hrun⟩
  · have hyields := Store.regular_forceSignOut.yields h
    have hlisted := Store.finishingOrder_of_forceSignOut hyields t
    have hc' : s'.club.Consistent :=
      (Store.composed_forceSignOut event t).consistent hyields (Session.consistent_after hsteps)
    have hahead := ahead_finishingOrder t (hc'.participantsOf_ids event)
    rw [hlisted] at hahead
    exact ⟨_, rfl, Store.participantsOf_of_forceSignOut hyields, hahead, hlisted⟩

theorem night_in_order :
    let s := Session.start.after (Night.steps (Night.time 50))
    let field := s.club.field ⟨Night.uuid 4⟩
    finishingOrder (Night.time 50) field.reverse = field ∧
      ∃ n s', (Store.forceSignOut ⟨Night.uuid 4⟩ (Night.time 50)).run s = (.ok n, s') ∧
        (Store.listParticipants ⟨Night.uuid 4⟩).run s' =
          (.ok (field.map (Participant.leave (Night.time 50))), s') := by
  intro s field
  obtain ⟨horder, htables⟩ := finishing_order_canonical
  obtain ⟨-, -, hunique, hreorder, -⟩ := horder (Night.time 50) field (by decide +kernel)
  have hahead : field.Pairwise (Participant.Ahead (Night.time 50)) := by
    unfold Participant.Ahead
    decide +kernel
  have hfield := hunique field (List.Perm.refl _) hahead
  obtain ⟨hsucceeds, hlisting⟩ := htables (Night.steps (Night.time 50)) ⟨Night.uuid 4⟩
    (Night.time 50) (by decide +kernel)
  obtain ⟨n, s', hforce⟩ := hsucceeds (by decide +kernel)
  obtain ⟨listed, hlist, heq, -⟩ := hlisting n s' hforce
  have hstored : (Night.time 50).stored = Night.time 50 := by decide +kernel
  rw [hstored, ← hfield] at heq
  exact ⟨(hreorder _ (List.reverse_perm _)).trans hfield.symm, n, s', hforce, heq ▸ hlist⟩

end CardClub
