import CardClub.Proofs.EndEffect
import CardClub.Proofs.Failing
import CardClub.Proofs.Rounding

/-!
# When ending an event fails

A started event can be ended exactly if its field can be counted, its winner can be awarded, and the
ranking of each of the field has room for the award. Nobody is awarded more than the winner, so the
other awards can be made if the winner's can. Whatever is in the way of ending a started event is a
breakdown, and never the fault of the request.
-/

namespace CardClub

open Work Club

/-- Whether the field of an event can be awarded, and its rankings have room for the awards. -/
structure Club.Payable (c : Club) (e : Event) : Prop where
  size : (c.field e.id).length < counterLimit
  winner : (c.field e.id).length = 0 ∨
    ∃ n, awardPoints (c.field e.id).length 1 e.multiplier = .ok n
  room : ∀ x ∈ (finishingOrder e.startDate (c.field e.id)).zipIdx 1, ∀ n,
    awardPoints (c.field e.id).length x.2 e.multiplier = .ok n →
      c.pointsOf x.1.membershipId + n < pointsLimit

variable {c : Club} {e : Event} {event : EventId} {l : List Participant} {multiplier : Decimal}
  {size placement : Nat} {cause : RankingError} {err : ServiceError} {awards plan : List Award}

/-! ## What it takes to succeed -/

/-- A field can be awarded if its winner can. -/
theorem planAwards_succeeds (hsize : l.length < countLimit)
    (hwinner : l.length = 0 ∨ ∃ n, awardPoints l.length 1 multiplier = .ok n) :
    ∃ awards, planAwards l multiplier = .ok awards := by
  have hall : ∀ x ∈ l.zipIdx 1, ∃ a, awardFor l.length multiplier x.1 x.2 = .ok a := by
    intro x hx
    obtain ⟨hfirst, hlast, -⟩ := List.mem_zipIdx hx
    rcases hwinner with hempty | ⟨n, hn⟩
    · omega
    · have hle : l.length - x.2 ≤ l.length - 1 := by omega
      obtain ⟨n', hn', -⟩ := awardPoints_mono (by omega) (by omega) hle hn
      exact ⟨⟨x.1.id, x.1.membershipId, x.2, n'⟩, awardFor_ok.mpr ⟨rfl, rfl, hn'⟩⟩
  rw [planAwards, if_pos hsize]
  exact mapM_succeeds hall

theorem winner_of_planAwards (h : planAwards l multiplier = .ok awards) :
    l.length = 0 ∨ ∃ n, awardPoints l.length 1 multiplier = .ok n := by
  obtain ⟨-, hall⟩ := planAwards_iff_forall₂.mp h
  cases l with
  | nil => exact .inl rfl
  | cons p l =>
      rw [List.zipIdx_cons, List.forall₂_cons_left_iff] at hall
      obtain ⟨a, rest, ha, -, -⟩ := hall
      exact .inr ⟨a.points, ha.points⟩

theorem forall_mem_iff_of_forall₂ {α β : Type} {r : α → β → Prop} {P : α → Prop} {Q : β → Prop}
    {as : List α} {bs : List β} (h : List.Forall₂ r as bs) (hPQ : ∀ a b, r a b → (P a ↔ Q b)) :
    (∀ a ∈ as, P a) ↔ ∀ b ∈ bs, Q b := by
  induction h with
  | nil => simp
  | cons hab _ ih => rw [List.forall_mem_cons, List.forall_mem_cons, hPQ _ _ hab, ih]

theorem forall_mem_range'_lt {n limit : Nat} (hlimit : 0 < limit) :
    (∀ k ∈ List.range' 1 n, k < limit) ↔ n < limit := by
  simp only [List.mem_range'_1]
  constructor
  · intro h
    rcases Nat.eq_zero_or_pos n with rfl | hpos
    · exact hlimit
    · exact h n (by omega)
  · omega

/-- The placements of a plan can be written if the last one can. -/
theorem forall_placement_lt (h : planAwards l multiplier = .ok awards) :
    (∀ x ∈ Award.places awards, x.2 < counterLimit) ↔ l.length < counterLimit := by
  obtain ⟨-, -, hplaces, -⟩ := planAwards_ok.mp h
  rw [← forall_mem_range'_lt counterLimit_pos, ← hplaces, Award.places]
  simp only [List.forall_mem_map]

theorem fitsPoints_add_iff {a b : Int} (ha : fitsPoints a = true) (hb : 0 ≤ b) :
    fitsPoints (a + b) = true ↔ a + b < pointsLimit := by
  rw [fitsPoints_iff] at ha ⊢
  omega

namespace Club.Consistent

theorem pointsOf_fits (hc : c.Consistent) (m : MembershipId) : fitsPoints (c.pointsOf m) = true :=
  pointsIn_fits (fun r hr => (hc.rankings_admissible r hr).points) m

/-- The awards of a plan can be paid exactly if none of them is too much for its ranking. -/
theorem room_iff (hc : c.Consistent)
    (hplan : planAwards (c.finishers e) e.multiplier = .ok awards) :
    (∃ deltas rankings, netDeltas awards = .ok deltas ∧
        deltas.foldlM Statement.creditRanking c.rankings = .ok rankings) ↔
      ∀ x ∈ (finishingOrder e.startDate (c.field e.id)).zipIdx 1, ∀ n,
        awardPoints (c.field e.id).length x.2 e.multiplier = .ok n →
          c.pointsOf x.1.membershipId + n < pointsLimit := by
  obtain ⟨-, hseats, -, hpoints⟩ := planAwards_ok.mp hplan
  have hmemberships : (awards.map (·.membershipId)).Nodup :=
    (Award.memberships_perm hseats).nodup_iff.mpr (hc.field_memberships e.id)
  rw [payable_iff hmemberships (fun a ha => awardPoints_fits (hpoints a ha))
    hc.pointsOf_fits]
  refine (forall_mem_iff_of_forall₂ (planAwards_finishers_iff.mp hplan).2 fun x a ha => ?_).symm
  have hmembership : x.1.membershipId = a.membershipId := (Prod.mk.inj ha.seat).2.symm
  rw [ha.points, hmembership]
  refine Iff.trans ?_
    (fitsPoints_add_iff (hc.pointsOf_fits a.membershipId) (awardPoints_nonneg ha.points)).symm
  constructor
  · intro hroom
    exact hroom a.points rfl
  · intro hless n hn
    obtain rfl := Except.ok.inj hn
    exact hless

theorem endEvent_succeeds_iff (hc : c.Consistent) (he : c.event? event = some e)
    (hopen : e.state.isEnded = false) :
    (∃ answer c', (Service.endEvent event).Yields c answer c') ↔ c.Payable e := by
  have hlength := length_finishers (c := c) e
  constructor
  · rintro ⟨answer, c', hyields⟩
    obtain ⟨e', awards, deltas, rankings, he', -, hplan, hnet, hfold, hsmall, -, -⟩ :=
      (Service.endEvent_yields hc).mp hyields
    obtain rfl : e = e' := Option.some.inj (he.symm.trans he')
    refine ⟨?_, hlength ▸ winner_of_planAwards hplan,
      (hc.room_iff hplan).mp ⟨deltas, rankings, hnet, hfold⟩⟩
    rw [← hlength]
    exact (forall_placement_lt hplan).mp hsmall
  · rintro ⟨hsize, hwinner, hroom⟩
    have hcount : counterLimit ≤ countLimit := by decide
    obtain ⟨awards, hplan⟩ :=
      planAwards_succeeds (l := c.finishers e) (by omega) (hlength ▸ hwinner)
    obtain ⟨deltas, rankings, hnet, hfold⟩ := (hc.room_iff hplan).mpr hroom
    exact ⟨_, _, (Service.endEvent_yields hc).mpr
      ⟨e, awards, deltas, rankings, he, hopen, hplan, hnet, hfold,
        (forall_placement_lt hplan).mpr (hlength ▸ hsize), rfl, rfl⟩⟩

end Club.Consistent

/-! ## What is in the way -/

theorem awardPoints_internal (hneg : multiplier.isNegative = false)
    (h : awardPoints size placement multiplier = .error cause) :
    ServiceError.ofRanking cause = .internal (.ranking cause) := by
  rw [awardPoints_of_nonneg hneg] at h
  split at h
  · obtain rfl := Except.error.inj h
    rfl
  · split at h
    · obtain rfl := Except.error.inj h
      rfl
    · split at h
      · obtain rfl := Except.error.inj h
        rfl
      · split at h
        · cases h
        · obtain rfl := Except.error.inj h
          rfl

theorem mem_of_mapM_error {ε α β : Type} {f : α → Except ε β} {as : List α} {x : ε}
    (h : as.mapM f = .error x) : ∃ a ∈ as, f a = .error x := by
  induction as with
  | nil => cases h
  | cons a as ih =>
      rw [List.mapM_cons] at h
      cases ha : f a with
      | error y =>
          rw [ha] at h
          obtain rfl := Except.error.inj h
          exact ⟨a, List.mem_cons_self, ha⟩
      | ok b =>
          cases hrest : as.mapM f with
          | ok bs => simp [ha, hrest, bind, Except.bind, pure, Except.pure] at h
          | error y =>
              obtain rfl : y = x := by simpa [ha, hrest, bind, Except.bind] using h
              obtain ⟨a', ha', hx⟩ := ih hrest
              exact ⟨a', List.mem_cons_of_mem a ha', hx⟩

theorem planAwards_internal (hneg : multiplier.isNegative = false)
    (h : planAwards l multiplier = .error cause) :
    ServiceError.ofRanking cause = .internal (.ranking cause) := by
  unfold planAwards at h
  split at h
  · obtain ⟨⟨p, placement⟩, -, hp⟩ := mem_of_mapM_error h
    cases haward : awardPoints l.length placement multiplier with
    | ok n => simp [awardFor, haward, Except.map] at hp
    | error x =>
        obtain rfl : x = cause := by simpa [awardFor, haward, Except.map] using hp
        exact awardPoints_internal hneg haward
  · obtain rfl := Except.error.inj h
    rfl

/-- Whether a failure is a breakdown. -/
def ServiceError.IsInternal (err : ServiceError) : Prop := ∃ cause, err = .internal cause

theorem ne_error_of_internal {α : Type} {outcome : Except ServiceError α}
    (h : ∀ err, outcome = .error err → err.IsInternal) (e : ServiceError)
    (hother : ∀ cause, e ≠ .internal cause) : outcome ≠ .error e := by
  intro he
  obtain ⟨cause, rfl⟩ := h e he
  exact hother cause rfl

theorem eq_internal_of_not_ok {α : Type} {outcome : Except ServiceError α}
    (h : ∀ err, outcome = .error err → err.IsInternal) (hnot : ¬ ∃ a, outcome = .ok a) :
    ∃ cause, outcome = .error (.internal cause) := by
  cases hout : outcome with
  | ok a => exact absurd ⟨a, hout⟩ hnot
  | error err =>
      obtain ⟨cause, rfl⟩ := h err hout
      exact ⟨cause, rfl⟩

namespace Store

variable {x : StoreError}

theorem write_internal {α : Type} {table : Table} {statement : Statement α}
    (h : (write table statement).Fails c x) : (ServiceError.ofStore x).IsInternal := by
  obtain ⟨d, -, rfl⟩ := write_fails.mp h
  exact ⟨_, rfl⟩

theorem batchUpdateRankings_internal {deltas : List (MembershipId × Int)}
    (h : (batchUpdateRankings deltas).Fails c x) : (ServiceError.ofStore x).IsInternal := by
  unfold batchUpdateRankings at h
  split at h
  · exact absurd h pure_fails
  · exact write_internal h

theorem setPlacements_internal {placements : List (ParticipantId × Nat)}
    (h : (setPlacements placements).Fails c x) : (ServiceError.ofStore x).IsInternal := by
  unfold setPlacements at h
  split at h
  · obtain rfl := fail_fails.mp h
    exact ⟨_, rfl⟩
  · split at h
    · exact absurd h pure_fails
    · exact write_internal h

end Store

namespace Service

theorem store_failsOnly {α : Type} {w : Work StoreError α} {P : ServiceError → Prop}
    (h : ∀ x, w.Fails c x → P (.ofStore x)) : (store w).FailsOnly P c := by
  intro e he
  obtain ⟨x, hx, rfl⟩ := store_fails.mp he
  exact h x hx

theorem applyToRankings_internal (plan : List Award) :
    (applyToRankings plan).FailsOnly ServiceError.IsInternal c := by
  refine .bind regular_ofExcept ?_ fun deltas c₁ _ =>
    .bind (regular_store Store.regular_batchUpdateRankings)
      (store_failsOnly fun _ => Store.batchUpdateRankings_internal) fun _ _ _ => failsOnly_pure
  intro e he
  obtain ⟨m, -, rfl⟩ := ofExcept_fails.mp he
  exact ⟨_, rfl⟩

theorem endEvent_of_absent (h : c.event? event = none) :
    (endEvent event).Fails c (.notFound .event event.uuid) :=
  fails_of_absent h

theorem endEvent_of_ended (he : c.event? event = some e) (hended : e.state.isEnded = true) :
    (endEvent event).Fails c (.forbidden (.alreadyEnded event)) :=
  fails_of_refused (·.state.isEnded) he hended

/-- While the event has started, nothing but a breakdown is in the way of ending it. -/
theorem endEvent_internal (hc : c.Consistent) (he : c.event? event = some e)
    (hopen : e.state.isEnded = false) : (endEvent event).FailsOnly ServiceError.IsInternal c := by
  have hneg := (hc.events_admissible e (Statement.event?_eq_some he).1).multiplier
  refine .transaction (.bind regular_getEvent fun _ => .bind regular_failIf fun _ =>
    .bind (regular_store Store.regular_forceSignOut) fun _ =>
      .bind (regular_store Store.regular_setState) fun _ =>
        .bind (regular_store regular_read) fun _ => .bind regular_ofExcept fun _ =>
          .bind regular_applyToRankings fun _ =>
            .bind (regular_store Store.regular_setPlacements) fun _ => regular_pure) ?_
  refine .of_yields (getEvent_yields.mpr ⟨he, rfl⟩) ?_
  refine .of_yields (a := ()) (failIf_yields.mpr ⟨hopen, rfl⟩) ?_
  refine .of_yields (store_yields.mpr (Store.forceSignOut_yields.mpr rfl)) ?_
  refine .of_yields (a := ()) (store_yields.mpr (Store.setState_yields.mpr ⟨e, he, rfl⟩)) ?_
  refine .of_yields (store_yields.mpr (read_yields.mpr ⟨rfl, rfl⟩)) ?_
  refine .bind regular_ofExcept (fun err herr => ?_) fun awards c₁ _ => ?_
  · obtain ⟨cause, hcause, rfl⟩ := ofExcept_fails.mp herr
    exact ⟨_, planAwards_internal hneg hcause⟩
  · exact .bind regular_applyToRankings (applyToRankings_internal awards) fun _ _ _ =>
      .bind (regular_store Store.regular_setPlacements)
        (store_failsOnly fun _ => Store.setPlacements_internal) fun _ _ _ => failsOnly_pure

end Service

/-- Ending an event that does not exist or has ended is refused as such. Where the database itself
does not fail, a started event is ended exactly if its field can be paid; otherwise there is a
breakdown, and the request is never at fault. -/
theorem end_event_outcome {steps : List Step} (hsteps : ∀ x ∈ steps, x.isProgram = true)
    (event : EventId) :
    let c := (Session.start.after steps).club
    let outcome := ((Service.endEvent event).run ⟨c, none⟩).1
    (∀ entity id, outcome = .error (.notFound entity id) ↔
      c.event? event = none ∧ entity = .event ∧ id = event.uuid) ∧
    (∀ why, outcome = .error (.forbidden why) ↔
      (∃ e, c.event? event = some e ∧ e.state = .ended) ∧ why = .alreadyEnded event) ∧
    (∀ e, c.event? event = some e → e.state = .started →
      ((∃ answer, outcome = .ok answer) ↔ c.Payable e) ∧
        (¬ c.Payable e → ∃ cause, outcome = .error (.internal cause))) ∧
    ∀ cause, outcome ≠ .error (.invalidRequest cause) := by
  intro c outcome
  have hc : c.Consistent := Session.consistent_after hsteps
  cases he : c.event? event with
  | none =>
      have hout : outcome = .error (.notFound .event event.uuid) := Service.endEvent_of_absent he
      simp [hout, eq_comm]
  | some e =>
      cases hstate : e.state with
      | ended =>
          have hout : outcome = .error (.forbidden (.alreadyEnded event)) :=
            Service.endEvent_of_ended he (hstate ▸ rfl)
          simp [hout, hstate, eq_comm]
      | started =>
          have hopen : e.state.isEnded = false := hstate ▸ rfl
          have hok : (∃ answer, outcome = .ok answer) ↔ c.Payable e :=
            (exists_congr fun _ => (Service.composed_endEvent event).regular.answer_ok).trans
              (hc.endEvent_succeeds_iff he hopen)
          have hinternal : ∀ err, outcome = .error err → err.IsInternal :=
            Service.endEvent_internal hc he hopen
          refine ⟨fun entity id => ?_, fun why => ?_, fun e' he' _ => ?_,
            fun _ => ne_error_of_internal hinternal _ nofun⟩
          · simp [ne_error_of_internal hinternal (.notFound entity id) nofun]
          · simp [ne_error_of_internal hinternal (.forbidden why) nofun, hstate]
          · obtain rfl := Option.some.inj he'
            exact ⟨hok, fun hnot => eq_internal_of_not_ok hinternal (mt hok.mp hnot)⟩

/-! ## A ranking without room

The one who is to win has as many points as a ranking can have.
-/

namespace Brimful

def steps : List Step :=
  Night.steps (Night.time 50) ++
    [.call ⟨Night.uuid 8, Night.time 80⟩
      (.service (.updateRanking ⟨Night.uuid 2⟩ (pointsLimit - 1)))]

def club : Club :=
  { Night.club (Night.time 50) with rankings := [⟨⟨Night.uuid 2⟩, pointsLimit - 1, 0⟩] }

theorem after_steps : Session.start.after steps = ⟨club, none⟩ := by
  decide +kernel

theorem not_payable : ¬ club.Payable (Night.event (Night.time 50)) := by
  intro h
  have horder : finishingOrder (Night.time 50) (club.field ⟨Night.uuid 4⟩) =
      club.field ⟨Night.uuid 4⟩ := List.mergeSort_of_pairwise (by decide +kernel)
  have hroom := h.room (⟨⟨Night.uuid 5⟩, ⟨Night.uuid 2⟩, ⟨Night.uuid 4⟩, 0, some (Night.time 70),
    Night.time 5⟩, 1)
  rw [Night.event, horder] at hroom
  have hless := hroom (by decide +kernel) 20 (by decide +kernel)
  revert hless
  decide +kernel

end Brimful

theorem brimful_not_ended :
    let c := (Session.start.after Brimful.steps).club
    ∃ cause, ((Service.endEvent ⟨Night.uuid 4⟩).run ⟨c, none⟩).1 = .error (.internal cause) := by
  obtain ⟨-, -, hstarted, -⟩ := end_event_outcome (by decide +kernel : ∀ x ∈ Brimful.steps,
    x.isProgram = true) ⟨Night.uuid 4⟩
  rw [Brimful.after_steps] at hstarted ⊢
  exact (hstarted (Night.event (Night.time 50)) (by decide +kernel) rfl).2 Brimful.not_payable

end CardClub
