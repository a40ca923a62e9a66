import CardClub.Proofs.BatchUpdate
import CardClub.Proofs.Deletion
import CardClub.Proofs.Payment
import CardClub.Proofs.PointsLedger

/-!
# What ending an event does

The field stands in the order of its sign-outs, late ones first, those still at the table counting
as signed out at the start of the event. Each of the field gets the award of its place in that
order, the placement and, where there was none, the sign-out time; its membership is paid the award.
The event has ended, and all else is as before.
-/

namespace CardClub

open Club

/-- Whether one participant finishes ahead of another when those still at the table are signed out
at a given instant. -/
def Participant.Ahead (forcedAt : Instant) (p q : Participant) : Prop :=
  q.signOutOr forcedAt < p.signOutOr forcedAt ∨
    q.signOutOr forcedAt = p.signOutOr forcedAt ∧ p.id < q.id

/-- What ending an event makes of a participant. -/
inductive Participant.Concluded (e : Event) (awards : List Award) (p : Participant) :
    Participant → Prop where
  | placed {a : Award} (hevent : p.eventId = e.id) (ha : a ∈ awards)
      (hid : a.participantId = p.id) :
      Concluded e awards p
        { p with placement := a.placement, signedOutAt := some (p.signOutOr e.startDate) }
  | other (hevent : p.eventId ≠ e.id) : Concluded e awards p p

/-- The award of a participant for finishing at a placement of a field. -/
structure Award.Of (size : Nat) (multiplier : Decimal) (x : Participant × Nat) (a : Award) :
    Prop where
  seat : (a.participantId, a.membershipId) = (x.1.id, x.1.membershipId)
  placement : a.placement = x.2
  points : awardPoints size x.2 multiplier = .ok a.points

/-- What ending an event answers, and what it makes of the tables. -/
structure Club.Concludes (c : Club) (e : Event) (answer : Standings) (c' : Club) : Prop where
  eventId : answer.eventId = e.id
  fieldSize : answer.fieldSize = (c.field e.id).length
  awards : ∃ order : List Participant, order.Perm (c.field e.id) ∧
    order.Pairwise (Participant.Ahead e.startDate) ∧
    List.Forall₂ (Award.Of (c.field e.id).length e.multiplier) (order.zipIdx 1) answer.awards
  participant_once : (answer.awards.map (·.participantId)).Nodup
  membership_once : (answer.awards.map (·.membershipId)).Nodup
  participants : List.Forall₂ (Participant.Concluded e answer.awards) c.participants c'.participants
  rankings : Paid answer.awards c.rankings c'.rankings
  events : c'.events = c.events.map fun x => if x.id = e.id then { x with state := .ended } else x
  memberships : c'.memberships = c.memberships
  semesters : c'.semesters = c.semesters

variable {c : Club} {e : Event} {awards : List Award} {l : List Participant} {p q : Participant}
  {multiplier : Decimal}

/-! ## The finishing order -/

theorem finishesBefore_eq_listedBefore (t : Instant) (p q : Participant) :
    finishesBefore t p q = listedBefore (p.leave t) (q.leave t) := rfl

theorem finishingOrder_perm (t : Instant) (l : List Participant) : (finishingOrder t l).Perm l :=
  List.mergeSort_perm _ _

/-- The finishing order is strict where identifiers do not repeat. -/
theorem ahead_finishingOrder (t : Instant) (hids : (l.map (·.id)).Nodup) :
    (finishingOrder t l).Pairwise (Participant.Ahead t) := by
  have hsorted : (finishingOrder t l).Pairwise fun p q => finishesBefore t p q = true :=
    List.pairwise_mergeSort
      (fun p q r => listedBefore_trans (p.leave t) (q.leave t) (r.leave t))
      (fun p q => listedBefore_total (p.leave t) (q.leave t)) l
  have hne := List.pairwise_map.mp (((finishingOrder_perm t l).map (·.id)).nodup_iff.mpr hids)
  refine (hsorted.and hne).imp fun {p q} hpq => ?_
  obtain ⟨hbefore, hne⟩ := hpq
  have hcases : q.signOutOr t < p.signOutOr t ∨ q.signOutOr t = p.signOutOr t ∧ p.id ≤ q.id := by
    simpa [finishesBefore] using hbefore
  rcases hcases with hlater | ⟨htime, hle⟩
  · exact .inl hlater
  · rcases Nat.lt_or_eq_of_le hle with hlt | heq
    · exact .inr ⟨htime, hlt⟩
    · exact absurd (Id.ext_uuid (Uuid.ext_number heq)) hne

theorem Club.finishers_eq (e : Event) : c.finishers e =
    (finishingOrder e.startDate (c.field e.id)).map (Participant.leave e.startDate) :=
  (List.map_mergeSort fun p _ q _ => finishesBefore_eq_listedBefore e.startDate p q).symm

/-! ## The plan -/

theorem mapM_ok_iff_forall₂ {ε α β : Type} {f : α → Except ε β} {as : List α} {bs : List β} :
    as.mapM f = .ok bs ↔ List.Forall₂ (fun a b => f a = .ok b) as bs := by
  induction as generalizing bs with
  | nil =>
      rw [List.forall₂_nil_left_iff]
      exact ⟨fun h => (Except.ok.inj h).symm, fun h => h ▸ rfl⟩
  | cons a as ih => simp only [mapM_cons_ok, ih, List.forall₂_cons_left_iff, exists_and_left]

theorem mapM_succeeds {ε α β : Type} {f : α → Except ε β} {as : List α}
    (h : ∀ a ∈ as, ∃ b, f a = .ok b) : ∃ bs, as.mapM f = .ok bs := by
  obtain ⟨bs, hbs, -⟩ := mapM_forall₂ (r := fun _ _ => True) fun a ha =>
    (h a ha).imp fun _ hb => ⟨hb, trivial⟩
  exact ⟨bs, hbs⟩

theorem planAwards_iff_forall₂ : planAwards l multiplier = .ok awards ↔
    l.length < countLimit ∧ List.Forall₂ (Award.Of l.length multiplier) (l.zipIdx 1) awards := by
  have hof {x : Participant × Nat} {a : Award} :
      awardFor l.length multiplier x.1 x.2 = .ok a ↔ Award.Of l.length multiplier x a :=
    awardFor_ok.trans ⟨fun h => ⟨h.1, h.2.1, h.2.2⟩, fun h => ⟨h.seat, h.placement, h.points⟩⟩
  unfold planAwards
  split
  · next hlt =>
    rw [mapM_ok_iff_forall₂]
    simp only [hof, hlt, true_and]
  · next hlt => simp [hlt]

theorem planAwards_leave (t : Instant) (l : List Participant) :
    planAwards (l.map (Participant.leave t)) multiplier = planAwards l multiplier := by
  simp only [planAwards, List.length_map, List.zipIdx_map, List.mapM_map]
  rfl

theorem planAwards_finishers_iff : planAwards (c.finishers e) multiplier = .ok awards ↔
    (c.field e.id).length < countLimit ∧ List.Forall₂ (Award.Of (c.field e.id).length multiplier)
      ((finishingOrder e.startDate (c.field e.id)).zipIdx 1) awards := by
  have horder : (finishingOrder e.startDate (c.field e.id)).length = (c.field e.id).length :=
    List.length_mergeSort _
  rw [finishers_eq, planAwards_leave, planAwards_iff_forall₂, horder]

/-! ## The tables -/

namespace Club.Consistent

theorem concluded (hc : c.Consistent)
    (hseats : Award.seats awards = Participant.seats (c.finishers e)) (rankings : List Ranking) :
    List.Forall₂ (Participant.Concluded e awards) c.participants
      (c.closed e awards rankings).participants := by
  have hids := Award.ids_of_seats hseats
  change List.Forall₂ _ _ (replaceWhere _ _ _)
  rw [replaceWhere, List.forall₂_map_right_iff, List.forall₂_same]
  intro p hp
  split
  · next hevent =>
    have hevent := of_decide_eq_true hevent
    have hmem : p.id ∈ awards.map (·.participantId) := by
      rw [(Award.ids_perm hseats).mem_iff]
      exact List.mem_map_of_mem (mem_field.mpr ⟨hp, hevent⟩)
    obtain ⟨a, ha, hid⟩ := List.mem_map.mp hmem
    have hplaced : (p.leave e.startDate).placedBy awards =
        { p with placement := a.placement, signedOutAt := some (p.signOutOr e.startDate) } := by
      rw [Participant.placedBy,
        Statement.placementIn_of_mem (hids ▸ hc.finishers_ids e) ha (p := p.leave e.startDate) hid]
      rfl
    rw [hplaced]
    exact .placed hevent ha hid
  · next hevent => exact .other fun heq => hevent (decide_eq_true heq)

theorem events_putEvent (hc : c.Consistent) (he : e ∈ c.events) (state : EventState) :
    (Statement.putEvent c { e with state }).events =
      c.events.map fun x => if x.id = e.id then { x with state } else x := by
  refine List.map_congr_left fun x hx => ?_
  by_cases hid : x.id = e.id
  · obtain rfl := List.inj_on_of_nodup_map hc.event_ids hx he hid
    simp
  · simp [hid]

theorem concludes (hc : c.Consistent) (he : e ∈ c.events)
    (hplan : planAwards (c.finishers e) e.multiplier = .ok awards)
    {deltas : List (MembershipId × Int)} (hnet : netDeltas awards = .ok deltas)
    {rankings : List Ranking}
    (hfold : deltas.foldlM Statement.creditRanking c.rankings = .ok rankings) :
    c.Concludes e ⟨e.id, awards.length, awards⟩ (c.closed e awards rankings) := by
  obtain ⟨-, hseats, -⟩ := planAwards_ok.mp hplan
  have hmemberships : (awards.map (·.membershipId)).Nodup :=
    (Award.memberships_perm hseats).nodup_iff.mpr (hc.field_memberships e.id)
  exact {
    eventId := rfl
    fieldSize := (length_of_planAwards hplan).trans (length_finishers e)
    awards := ⟨_, finishingOrder_perm _ _, ahead_finishingOrder _ (hc.field_ids e.id),
      (planAwards_finishers_iff.mp hplan).2⟩
    participant_once := Award.ids_of_seats hseats ▸ hc.finishers_ids e
    membership_once := hmemberships
    participants := hc.concluded hseats rankings
    rankings := paid_of_netDeltas hmemberships hc.ranking_ids hnet hfold
    events := hc.events_putEvent he .ended
    memberships := rfl
    semesters := rfl }

end Club.Consistent

/-- Ending an event, whenever it succeeds, has exactly the effect of `Club.Concludes`. -/
theorem end_concludes_event {steps : List Step} (hsteps : ∀ x ∈ steps, x.isProgram = true)
    {event : EventId} {answer : Standings} {s' : Session}
    (hend : (Service.endEvent event).run (Session.start.after steps) = (.ok answer, s')) :
    let c := (Session.start.after steps).club
    ∃ e, c.event? event = some e ∧ e.state = .started ∧ c.Concludes e answer s'.club := by
  intro c
  have hc : c.Consistent := Session.consistent_after hsteps
  have hyields := (Service.composed_endEvent event).regular.yields hend
  obtain ⟨e, awards, deltas, rankings, he, hopen, hplan, hnet, hfold, -, rfl, hclub⟩ :=
    (Service.endEvent_yields hc).mp hyields
  obtain ⟨hmem, rfl⟩ := Statement.event?_eq_some he
  refine ⟨e, he, ?_, hclub ▸ hc.concludes hmem hplan hnet hfold⟩
  cases hstate : e.state with
  | started => rfl
  | ended =>
      rw [hstate] at hopen
      cases hopen

/-! ## An end after a correction

Of the two members who have entered the event, the winner has seven points already, the other one
has no ranking yet and is still at the table.
-/

namespace Corrections

def club : Club :=
  { Night.club (Night.time 50) with rankings := [⟨⟨Night.uuid 2⟩, 7, 0⟩] }

def rankings : List Ranking := [⟨⟨Night.uuid 2⟩, 27, 0⟩, ⟨⟨Night.uuid 3⟩, 10, 0⟩]

theorem after_steps : Session.start.after steps = ⟨club, none⟩ := by
  decide +kernel

theorem ends : (Service.endEvent ⟨Night.uuid 4⟩).Yields club ⟨⟨Night.uuid 4⟩, 2, Night.awards⟩
    (club.closed (Night.event (Night.time 50)) Night.awards rankings) := by
  have hc : club.Consistent := by
    have h : (Session.start.after steps).club.Consistent :=
      Session.consistent_after (by decide +kernel)
    rwa [after_steps] at h
  have hfinishers : club.finishers (Night.event (Night.time 50)) =
      (club.field ⟨Night.uuid 4⟩).map (Participant.leave (Night.time 50)) :=
    List.mergeSort_of_pairwise (by decide +kernel)
  refine (Service.endEvent_yields hc).mpr ⟨Night.event (Night.time 50), Night.awards,
    [(⟨Night.uuid 2⟩, 20), (⟨Night.uuid 3⟩, 10)], rankings, by decide +kernel, rfl, ?_,
    by decide +kernel, by decide +kernel, by decide +kernel, rfl, rfl⟩
  rw [hfinishers]
  decide +kernel

end Corrections

theorem corrections_concluded :
    let c := (Session.start.after Corrections.steps).club
    ∃ c', c.Concludes (Night.event (Night.time 50)) ⟨⟨Night.uuid 4⟩, 2, Night.awards⟩ c' ∧
      c'.rankings = [⟨⟨Night.uuid 2⟩, 27, 0⟩, ⟨⟨Night.uuid 3⟩, 10, 0⟩] := by
  intro c
  have hend : (Service.endEvent ⟨Night.uuid 4⟩).run (Session.start.after Corrections.steps) =
      (.ok ⟨⟨Night.uuid 4⟩, 2, Night.awards⟩,
        ⟨Corrections.club.closed (Night.event (Night.time 50)) Night.awards Corrections.rankings,
          none⟩) := by
    rw [Corrections.after_steps]
    exact Corrections.ends
  obtain ⟨e, he, -, hconcludes⟩ := end_concludes_event (by decide +kernel) hend
  have hfound : c.event? ⟨Night.uuid 4⟩ = some (Night.event (Night.time 50)) := by decide +kernel
  obtain rfl := Option.some.inj (hfound.symm.trans he)
  exact ⟨_, hconcludes, rfl⟩

end CardClub
