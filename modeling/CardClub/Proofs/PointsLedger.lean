import CardClub.Proofs.Seats
import CardClub.Proofs.Settled

/-!
# The points ledger

The points of a membership are the deltas that were applied to it by hand and the awards of the
events that have ended with it in their fields. Awards are not remembered: undoing an end computes
them again, which gives what was credited because nothing that they depend on changes while the
event has ended.
-/

namespace CardClub

/-- The points that a placement is awarded; 0 where there is no award. -/
def award (fieldSize : Nat) (multiplier : Decimal) (placement : Nat) : Int :=
  match awardPoints fieldSize placement multiplier with
  | .ok n => n
  | .error _ => 0

namespace Club

/-- The points of a membership; 0 without a ranking. -/
def pointsOf (c : Club) (m : MembershipId) : Int := pointsIn c.rankings m

/-- The awards of the field of an event as its placements stand. -/
def results (c : Club) (e : Event) : List (MembershipId × Int) :=
  (c.field e.id).map fun p =>
    (p.membershipId, award (c.field e.id).length e.multiplier p.placement)

/-- What an event has brought to a membership; nothing before it ends. -/
def earned (c : Club) (m : MembershipId) (e : Event) : Int :=
  if e.state.isEnded then owed (c.results e) m else 0

/-- What all events have brought to a membership. -/
def due (c : Club) (m : MembershipId) : Int := (c.events.map (c.earned m)).sum

end Club

variable {c c' : Club} {m : MembershipId} {e row : Event}

theorem award_of_ok {fieldSize placement : Nat} {multiplier : Decimal} {n : Int}
    (h : awardPoints fieldSize placement multiplier = .ok n) :
    award fieldSize multiplier placement = n := by
  rw [award, h]

theorem award_congr {fieldSize placement : Nat} {a b : Decimal} (h : a.sameValue b = true) :
    award fieldSize a placement = award fieldSize b placement := by
  cases ha : awardPoints fieldSize placement a with
  | ok n => rw [award_of_ok ha, award_of_ok (awardPoints_congr h ha)]
  | error x =>
      cases hb : awardPoints fieldSize placement b with
      | error y => simp only [award, ha, hb]
      | ok n =>
          rw [Decimal.sameValue_comm] at h
          rw [awardPoints_congr h hb] at ha
          cases ha

namespace Club

theorem earned_of_open (h : e.state.isEnded = false) : c.earned m e = 0 := by
  simp [earned, h]

theorem earned_of_ended (h : e.state.isEnded = true) : c.earned m e = owed (c.results e) m := by
  simp [earned, h]

theorem results_congr (hid : row.id = e.id) (hfield : c'.field e.id = c.field e.id)
    (hmultiplier : e.multiplier.sameValue row.multiplier = true) :
    c'.results row = c.results e := by
  simp only [results, hid, hfield, award_congr hmultiplier]

theorem earned_congr (hid : row.id = e.id) (hstate : row.state = e.state)
    (hfield : c'.field e.id = c.field e.id)
    (hmultiplier : e.multiplier.sameValue row.multiplier = true) :
    c'.earned m row = c.earned m e := by
  rw [earned, earned, hstate, results_congr hid hfield hmultiplier]

theorem owed_results {plan : List Award} {points : Award → Int}
    (hplan : (c.participantsOf e.id).map (fun p => (p.membershipId, p.placement)) =
      plan.map fun a => (a.membershipId, a.placement))
    (hpoints : ∀ a ∈ plan, awardPoints (c.field e.id).length a.placement e.multiplier =
      .ok (points a)) :
    owed (c.results e) m = owed (plan.map fun a => (a.membershipId, points a)) m := by
  have hlisting : owed (c.results e) m = owed ((c.participantsOf e.id).map fun p =>
      (p.membershipId, award (c.field e.id).length e.multiplier p.placement)) m :=
    owed_perm ((c.participantsOf_perm e.id).map _).symm
  have hawards := congrArg (List.map fun x : MembershipId × Nat =>
    (x.1, award (c.field e.id).length e.multiplier x.2)) hplan
  rw [List.map_map, List.map_map] at hawards
  rw [hlisting]
  refine congrArg (owed · m) (hawards.trans (List.map_congr_left fun a ha => ?_))
  simp only [Function.comp_apply, award_of_ok (hpoints a ha)]

/-! ## What events bring as calls are made -/

/-- When one event changes with its field, what is due changes by what that event brings. -/
theorem due_putEvent (hc : c.Consistent) (he : e ∈ c.events) (hid : row.id = e.id)
    (hevents : c'.events = (Statement.putEvent c row).events)
    (hothers : ∀ id, id ≠ e.id → c'.field id = c.field id) :
    c'.due m = c.due m + (c'.earned m row - c.earned m e) := by
  have hsum := sum_map_key hc.event_ids he
    (f := fun x => c'.earned m (if x.id = row.id then row else x))
    (g := c.earned m) fun x _ hne => by
      rw [hid, if_neg hne]
      exact earned_congr rfl rfl (hothers _ hne) (Decimal.sameValue_self _)
  simp only [hid, if_true] at hsum
  rw [due, due, hevents, ← hsum, Statement.putEvent, replaceWhere, List.map_map]
  simp [Function.comp_def, hid]

theorem Touched.due_eq (h : c.Touched c') (hc : c.Consistent) (m : MembershipId) :
    c'.due m = c.due m := by
  cases h with
  | untouched hevents hparticipants =>
      rw [due, due, hevents]
      refine congrArg List.sum (List.map_congr_left fun x _ => ?_)
      exact earned_congr rfl rfl (field_congr hparticipants _) (Decimal.sameValue_self _)
  | announced row hopen hevents hparticipants =>
      rw [due, due, hevents, List.map_append, List.sum_append, List.map_singleton,
        List.sum_singleton, earned_of_open hopen, Int.add_zero]
      refine congrArg List.sum (List.map_congr_left fun x _ => ?_)
      exact earned_congr rfl rfl (field_congr hparticipants _) (Decimal.sameValue_self _)
  | changed e row he hid hstate hevents hothers hfrozen =>
      have hearned : c'.earned m row = c.earned m e := by
        cases hended : e.state.isEnded with
        | false => rw [earned_of_open hended, earned_of_open (hstate ▸ hended)]
        | true =>
            obtain ⟨hfield, hmultiplier⟩ := hfrozen hended
            exact earned_congr hid hstate hfield hmultiplier
      rw [due_putEvent hc he hid hevents hothers, hearned]
      omega

theorem owed_debits {plan : List Award} :
    owed (plan.map fun a => (a.membershipId, -a.points)) m = -owed (plan.map Award.delta) m := by
  have hneg : owed (negated (plan.map Award.delta)) m = -owed (plan.map Award.delta) m :=
    owed_negated
  rw [negated, List.map_map] at hneg
  exact hneg

theorem due_closed (hc : c.Consistent) (he : e ∈ c.events) (hopen : e.state.isEnded = false)
    {awards : List Award} (rankings : List Ranking)
    (hplan : planAwards (c.finishers e) e.multiplier = .ok awards) :
    (c.closed e awards rankings).due m = c.due m + owed (awards.map Award.delta) m := by
  obtain ⟨-, hseats, -, hpoints⟩ := planAwards_ok.mp hplan
  have hlength : (c.finishers e).length = ((c.closed e awards rankings).field e.id).length := by
    rw [field_closed, List.length_map, length_finishers]
  have hrow : (c.closed e awards rankings).earned m { e with state := .ended } =
      owed (awards.map Award.delta) m := by
    rw [earned_of_ended rfl]
    exact owed_results (e := { e with state := .ended }) (results_closed hc rankings hseats)
      fun a ha => hlength ▸ hpoints a ha
  have hdue : (c.closed e awards rankings).due m = c.due m +
      ((c.closed e awards rankings).earned m { e with state := .ended } - c.earned m e) :=
    due_putEvent hc he rfl rfl fun _ hne => field_closed_of_ne hne
  rw [hdue, hrow, earned_of_open hopen]
  omega

theorem due_reopened (hc : c.Consistent) (he : e ∈ c.events) (hended : e.state.isEnded = true)
    (hsettled : c.Settled e) {debits : List Award} (rankings : List Ranking)
    (hplan : planReversal (c.participantsOf e.id) e.multiplier = .ok debits) :
    (c.reopened e rankings).due m = c.due m + owed (debits.map Award.delta) m := by
  obtain ⟨-, hseats, hplaces, hpoints⟩ := planReversal_ok.mp hplan
  rw [placed_of_pos hsettled.placement_pos] at hseats hplaces hpoints
  have hresults : (c.participantsOf e.id).map (fun p => (p.membershipId, p.placement)) =
      debits.map fun a => (a.membershipId, a.placement) := by
    rw [← List.zip_map', ← List.zip_map', hplaces, Award.memberships_of_seats hseats]
  have hearned : c.earned m e = -owed (debits.map Award.delta) m := by
    rw [earned_of_ended hended, ← owed_debits]
    apply owed_results hresults
    intro a ha
    rw [← length_participantsOf]
    exact (hpoints a ha).1
  have hdue : (c.reopened e rankings).due m = c.due m +
      ((c.reopened e rankings).earned m { e with state := .started } - c.earned m e) :=
    due_putEvent hc he rfl rfl fun _ _ => rfl
  rw [hdue, hearned, earned_of_open rfl]
  omega

end Club

/-! ## The ledger over a history -/

/-- The members of the field that a call signs out for good. -/
def ServiceCall.finishers (c : Club) : ServiceCall → List MembershipId
  | endEvent event => (c.field event).map (·.membershipId)
  | _ => []

namespace Entry

/-- The deltas that a call has applied by hand. -/
def deltas (x : Entry) : List (MembershipId × Int) :=
  match x.call, x.answer with
  | .service call, .ok _ => call.deltas
  | _, _ => []

/-- The members of the field of an event that a call has ended. -/
def finishers (x : Entry) : List MembershipId :=
  match x.call, x.answer with
  | .service call, .ok _ => call.finishers x.before
  | _, _ => []

theorem of_error {x : Entry} {cause : CallError} (h : x.answer = .error cause) :
    x.deltas = [] ∧ x.finishers = [] := by
  obtain ⟨before, stamp, call, answer⟩ := x
  obtain rfl : answer = .error cause := h
  cases call <;> exact ⟨rfl, rfl⟩

end Entry

variable {stamp : Stamp} {call : ServiceCall}

/-- A call moves the points of a membership by what it applies by hand and by what falls due. -/
theorem ServiceCall.Effect.pointsOf (h : call.Effect stamp c c') (hc : c.Consistent)
    (hsettled : c.AllSettled) (m : MembershipId) :
    c'.pointsOf m - c'.due m = c.pointsOf m - c.due m + owed call.deltas m := by
  rcases h.closing with hcall | ⟨event, answer, rfl, hyields⟩ | ⟨event, debits, rfl, hyields⟩
  · have hpoints : c'.pointsOf m = c.pointsOf m + owed call.deltas m :=
      creditAll_points (h.credits hcall) m
    rw [(h.touched hc hcall).due_eq hc m, hpoints]
    omega
  · obtain ⟨e, awards, deltas, rankings, he, hopen, hplan, hnet, hfold, -, -, rfl⟩ :=
      (Service.endEvent_yields hc).mp hyields
    obtain ⟨hmem, rfl⟩ := Statement.event?_eq_some he
    have hpoints : (c.closed e awards rankings).pointsOf m = c.pointsOf m + owed deltas m :=
      creditAll_points hfold m
    have hnone : owed (ServiceCall.endEvent e.id).deltas m = 0 := rfl
    rw [Club.due_closed hc hmem hopen rankings hplan, hpoints, (netDeltas_ok hnet).1, hnone]
    omega
  · obtain ⟨e, deltas, rankings, he, hended, hplan, hnet, hfold, rfl⟩ :=
      (Service.undoEndEvent_yields hc).mp hyields
    obtain ⟨hmem, rfl⟩ := Statement.event?_eq_some he
    have hpoints : (c.reopened e rankings).pointsOf m = c.pointsOf m + owed deltas m :=
      creditAll_points hfold m
    have hnone : owed (ServiceCall.undoEndEvent e.id).deltas m = 0 := rfl
    rw [Club.due_reopened hc hmem hended (hsettled e hmem hended) rankings hplan, hpoints,
      (netDeltas_ok hnet).1, hnone]
    omega

theorem ServiceCall.Effect.ranked (h : call.Effect stamp c c') (hc : c.Consistent)
    (hsettled : c.AllSettled) (m : MembershipId) :
    m ∈ c'.rankings.map (·.membershipId) ↔ m ∈ c.rankings.map (·.membershipId) ∨
      m ∈ call.deltas.map (·.1) ∨ m ∈ call.finishers c := by
  rcases h.closing with hcall | ⟨event, answer, rfl, hyields⟩ | ⟨event, debits, rfl, hyields⟩
  · have hnone : call.finishers c = [] := by
      cases call <;> first | rfl | cases hcall
    rw [mem_keys_creditAll (h.credits hcall), hnone]
    simp
  · obtain ⟨e, awards, deltas, rankings, he, hopen, hplan, hnet, hfold, -, -, rfl⟩ :=
      (Service.endEvent_yields hc).mp hyields
    obtain ⟨hmem, rfl⟩ := Statement.event?_eq_some he
    obtain ⟨-, hseats, -⟩ := planAwards_ok.mp hplan
    apply (mem_keys_creditAll hfold).trans
    rw [(netDeltas_ok hnet).2.1, (Award.memberships_perm hseats).mem_iff]
    simp [ServiceCall.deltas, ServiceCall.finishers]
  · obtain ⟨e, deltas, rankings, he, hended, hplan, hnet, hfold, rfl⟩ :=
      (Service.undoEndEvent_yields hc).mp hyields
    obtain ⟨hmem, rfl⟩ := Statement.event?_eq_some he
    obtain ⟨-, hseats, -⟩ := planReversal_ok.mp hplan
    have hranked : m ∈ deltas.map (·.1) → m ∈ c.rankings.map (·.membershipId) := by
      rw [(netDeltas_ok hnet).2.1, Award.memberships_of_seats hseats]
      intro hm
      obtain ⟨p, hp, rfl⟩ := List.mem_map.mp hm
      exact (hsettled e hmem hended).ranked p
        (Club.mem_participantsOf.mp (List.mem_of_mem_filter hp))
    apply (mem_keys_creditAll hfold).trans
    simp only [ServiceCall.deltas, ServiceCall.finishers, List.map_nil, List.not_mem_nil, or_false]
    exact or_iff_left_of_imp hranked

namespace Session

theorem ledger_after {steps : List Step} (hsteps : ∀ x ∈ steps, x.isService = true)
    (m : MembershipId) :
    (start.after steps).club.pointsOf m =
        owed ((start.log steps).flatMap Entry.deltas) m + (start.after steps).club.due m ∧
      (m ∈ (start.after steps).club.rankings.map (·.membershipId) ↔
        m ∈ ((start.log steps).flatMap Entry.deltas).map (·.1) ∨
          m ∈ (start.log steps).flatMap Entry.finishers) := by
  -- what a call moves can be told only while the ended events are settled, so that is carried along
  apply And.right
  apply service_log (P := fun log c => c.AllSettled ∧
    c.pointsOf m = owed (log.flatMap Entry.deltas) m + c.due m ∧
    (m ∈ c.rankings.map (·.membershipId) ↔
      m ∈ (log.flatMap Entry.deltas).map (·.1) ∨ m ∈ log.flatMap Entry.finishers)) ?_ ?_ ?_ hsteps
  · refine ⟨fun e he => absurd he List.not_mem_nil, rfl, ?_⟩
    simp [Club.empty]
  · intro log c entries h hfailed
    have hnone (x : Entry) (hx : x ∈ entries) : x.deltas = [] ∧ x.finishers = [] := by
      obtain ⟨cause, hcause⟩ := hfailed x hx
      exact Entry.of_error hcause
    have hdeltas : entries.flatMap Entry.deltas = [] :=
      List.flatMap_eq_nil_iff.mpr fun x hx => (hnone x hx).1
    have hfinishers : entries.flatMap Entry.finishers = [] :=
      List.flatMap_eq_nil_iff.mpr fun x hx => (hnone x hx).2
    rw [List.flatMap_append, List.flatMap_append, hdeltas, hfinishers,
      List.append_nil, List.append_nil]
    exact h
  · intro log c stamp call reply c' hc h hyields
    obtain ⟨hsettled, hpoints, hranked⟩ := h
    have heffect := ServiceCall.effect hyields
    have hmove := heffect.pointsOf hc hsettled m
    have hkeys := heffect.ranked hc hsettled m
    refine ⟨heffect.allSettled hc hsettled, ?_, ?_⟩
    · rw [List.flatMap_append, owed_append, List.flatMap_singleton]
      change c'.pointsOf m = owed (log.flatMap Entry.deltas) m + owed call.deltas m + c'.due m
      omega
    · rw [hkeys, hranked, List.flatMap_append, List.flatMap_append, List.map_append,
        List.mem_append, List.mem_append, List.flatMap_singleton, List.flatMap_singleton]
      exact or_or_or_comm

end Session

/-! ## What is due, award by award -/

namespace Club

/-- The entry of a membership in an event. -/
def entry? (c : Club) (event : EventId) (m : MembershipId) : Option Participant :=
  (c.field event).find? fun p => decide (p.membershipId = m)

/-- The events that have ended with a membership in their fields, and its entries in them. -/
def finishes (c : Club) (m : MembershipId) : List (Event × Participant) :=
  (c.events.filter fun e => e.state.isEnded).filterMap fun e => (c.entry? e.id m).map (Prod.mk e)

/-- The awards of a membership from the events that have ended. -/
def awardsOf (c : Club) (m : MembershipId) : Except RankingError (List Int) :=
  (c.finishes m).mapM fun (e, p) => awardPoints (c.field e.id).length p.placement e.multiplier

theorem Consistent.field_memberships (hc : c.Consistent) (event : EventId) :
    ((c.field event).map (·.membershipId)).Nodup :=
  hc.seatedOnce.field_memberships event

theorem Consistent.earned_of_ended (hc : c.Consistent) (hended : e.state.isEnded = true) :
    c.earned m e = ((c.entry? e.id m).map fun p =>
      award (c.field e.id).length e.multiplier p.placement).getD 0 := by
  rw [Club.earned_of_ended hended, results, owed_map_key (hc.field_memberships e.id), entry?]

theorem Consistent.sum_awards (hc : c.Consistent) (m : MembershipId) {events : List Event}
    (hsettled : ∀ e ∈ events, e.state.isEnded = true → c.Settled e) :
    ∃ awards, (((events.filter fun e => e.state.isEnded).filterMap fun e =>
        (c.entry? e.id m).map (Prod.mk e)).mapM fun (e, p) =>
          awardPoints (c.field e.id).length p.placement e.multiplier) = .ok awards ∧
      awards.sum = (events.map (c.earned m)).sum := by
  induction events with
  | nil => exact ⟨[], rfl, rfl⟩
  | cons e events ih =>
      obtain ⟨he, hrest⟩ := List.forall_mem_cons.mp hsettled
      obtain ⟨awards, hawards, hsum⟩ := ih hrest
      rw [List.map_cons, List.sum_cons]
      cases hended : e.state.isEnded with
      | false =>
          rw [List.filter_cons_of_neg (by simp [hended]), earned_of_open hended, Int.zero_add]
          exact ⟨awards, hawards, hsum⟩
      | true =>
          rw [List.filter_cons_of_pos (by simp [hended]), hc.earned_of_ended hended]
          cases hentry : c.entry? e.id m with
          | none =>
              refine ⟨awards, ?_, by simpa using hsum⟩
              rwa [List.filterMap_cons_none (by rw [hentry]; rfl)]
          | some p =>
              obtain ⟨n, hn⟩ := (he hended).awarded p (List.mem_of_find?_eq_some hentry)
              refine ⟨n :: awards, ?_, ?_⟩
              · rw [List.filterMap_cons_some (by rw [hentry]; rfl)]
                exact mapM_cons_ok.mpr ⟨n, awards, hn, hawards, rfl⟩
              · rw [List.sum_cons, hsum, Option.map_some, Option.getD_some, award_of_ok hn]

theorem AllSettled.awardsOf (hsettled : c.AllSettled) (hc : c.Consistent) (m : MembershipId) :
    ∃ awards, c.awardsOf m = .ok awards ∧ awards.sum = c.due m :=
  hc.sum_awards m hsettled

end Club

/-- The points of a membership are the deltas applied to it by hand and the awards of the events
that have ended with it. It has a ranking when a delta was applied to it or an event with it in the
field has ended. -/
theorem points_ledger {steps : List Step} (hsteps : ∀ x ∈ steps, x.isService = true)
    (m : MembershipId) :
    let c := (Session.start.after steps).club
    let log := Session.start.log steps
    (∃ awards, c.awardsOf m = .ok awards ∧
      c.pointsOf m = owed (log.flatMap Entry.deltas) m + awards.sum) ∧
    ((c.ranking? m).isSome = true ↔
      (∃ d ∈ log.flatMap Entry.deltas, d.1 = m) ∨ ∃ x ∈ log, m ∈ x.finishers) := by
  have hc : (Session.start.after steps).club.Consistent :=
    Session.consistent_after fun x hx => Step.isProgram_of_isService (hsteps x hx)
  obtain ⟨hpoints, hranked⟩ := Session.ledger_after hsteps m
  obtain ⟨awards, hawards, hsum⟩ := (Session.allSettled_after hsteps).awardsOf hc m
  refine ⟨⟨awards, hawards, hsum ▸ hpoints⟩, ?_⟩
  rw [Club.ranking?, isSome_find?_key, hranked, List.mem_map, List.mem_flatMap]

theorem night_points_ledger :
    let c := (Session.start.after Night.whole).club
    c.pointsOf ⟨Night.uuid 2⟩ = 20 ∧ ∃ awards, c.awardsOf ⟨Night.uuid 2⟩ = .ok awards ∧
      c.pointsOf ⟨Night.uuid 2⟩ =
        owed ((Session.start.log Night.whole).flatMap Entry.deltas) ⟨Night.uuid 2⟩ +
          awards.sum := by
  have hpoints : (Session.start.after Night.whole).club.pointsOf ⟨Night.uuid 2⟩ = 20 := by
    rw [Night.after_whole]
    decide +kernel
  exact ⟨hpoints, (points_ledger Night.isService_whole ⟨Night.uuid 2⟩).1⟩

end CardClub
