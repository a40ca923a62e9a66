import CardClub.Proofs.EndFailure

/-!
# When undoing the end of an event fails

While an event has ended, all of its field have placements whose awards can be computed, so the
reversal has a debit for each of them. An undo therefore fails only where a ranking has so few
points left that a debit would take it out of range, which takes a correction by hand.
-/

namespace CardClub

open Work Club

/-- The debit of a participant, which takes back the award of the recorded placement. -/
structure Award.Reverses (size : Nat) (multiplier : Decimal) (p : Participant) (debit : Award) :
    Prop where
  seat : (debit.participantId, debit.membershipId) = (p.id, p.membershipId)
  placement : debit.placement = p.placement
  points : awardPoints size p.placement multiplier = .ok (-debit.points)

/-- Whether the rankings of the field of an event have enough points for what it was awarded. -/
def Club.Debitable (c : Club) (e : Event) : Prop :=
  ∀ p ∈ c.field e.id, ∀ n, awardPoints (c.field e.id).length p.placement e.multiplier = .ok n →
    -(pointsLimit : Int) ≤ c.pointsOf p.membershipId - n

/-- What undoing the end of an event makes of the tables. -/
structure Club.Reopens (c : Club) (e : Event) (debits : List Award) (c' : Club) : Prop where
  rankings : List.Forall₂ (Ranking.PaidBy debits) c.rankings c'.rankings
  events : c'.events = c.events.map fun x => if x.id = e.id then { x with state := .started } else x
  participants : c'.participants = c.participants
  memberships : c'.memberships = c.memberships
  semesters : c'.semesters = c.semesters

variable {c c' : Club} {e : Event} {event : EventId} {debits answer : List Award}
  {rankings : List Ranking} {deltas : List (MembershipId × Int)}

/-! ## The reversal -/

theorem fitsPoints_sub_iff {a b : Int} (ha : fitsPoints a = true) (hb : 0 ≤ b) :
    fitsPoints (a - b) = true ↔ -(pointsLimit : Int) ≤ a - b := by
  rw [fitsPoints_iff] at ha ⊢
  omega

theorem Club.Consistent.length_lt_of_settled (hc : c.Consistent) (hsettled : c.Settled e) :
    (c.field e.id).length < countLimit := by
  have hlimits : counterLimit < countLimit := by decide
  refine Nat.lt_trans ((forall_mem_range'_lt counterLimit_pos).mp ?_) hlimits
  rw [← hsettled.placements, List.forall_mem_map]
  intro p hp
  exact hc.placements_small p (mem_field.mp (mem_participantsOf.mp hp)).1

/-- While an event has ended, it has a reversal. -/
theorem Club.Consistent.reversal (hc : c.Consistent) (hsettled : c.Settled e) :
    ∃ debits, planReversal (c.participantsOf e.id) e.multiplier = .ok debits := by
  have hall : ∀ p ∈ c.participantsOf e.id, ∃ d,
      debitFor (c.field e.id).length e.multiplier p = .ok d := by
    intro p hp
    obtain ⟨n, hn⟩ := hsettled.awarded p (mem_participantsOf.mp hp)
    exact ⟨_, debitFor_of_points hn⟩
  simp only [planReversal]
  rw [placed_of_pos hsettled.placement_pos, length_participantsOf,
    if_pos (hc.length_lt_of_settled hsettled)]
  exact mapM_succeeds hall

namespace Club.Settled

theorem reverses (hsettled : c.Settled e)
    (hplan : planReversal (c.participantsOf e.id) e.multiplier = .ok debits) :
    List.Forall₂ (Award.Reverses (c.field e.id).length e.multiplier) (c.participantsOf e.id)
      debits := by
  simp only [planReversal] at hplan
  rw [placed_of_pos hsettled.placement_pos, length_participantsOf] at hplan
  split at hplan
  · refine (mapM_ok_iff_forall₂.mp hplan).imp fun p d hd => ?_
    obtain ⟨hseat, hplacement, hpoints, -⟩ := debitFor_ok.mp hd
    exact ⟨hseat, hplacement, hpoints⟩
  · cases hplan

theorem debit_seats (hsettled : c.Settled e)
    (hplan : planReversal (c.participantsOf e.id) e.multiplier = .ok debits) :
    Award.seats debits = Participant.seats (c.participantsOf e.id) := by
  obtain ⟨-, hseats, -⟩ := planReversal_ok.mp hplan
  rwa [placed_of_pos hsettled.placement_pos] at hseats

end Club.Settled

namespace Club.Consistent

theorem debits_nodup (hc : c.Consistent) (hsettled : c.Settled e)
    (hplan : planReversal (c.participantsOf e.id) e.multiplier = .ok debits) :
    (debits.map (·.membershipId)).Nodup := by
  rw [Award.memberships_of_seats (hsettled.debit_seats hplan)]
  exact ((c.participantsOf_perm e.id).map _).nodup_iff.mpr (hc.field_memberships e.id)

theorem debitable_iff (hc : c.Consistent) (hsettled : c.Settled e)
    (hplan : planReversal (c.participantsOf e.id) e.multiplier = .ok debits) :
    (∃ deltas rankings, netDeltas debits = .ok deltas ∧
        deltas.foldlM Statement.creditRanking c.rankings = .ok rankings) ↔ c.Debitable e := by
  obtain ⟨-, -, -, hpoints⟩ := planReversal_ok.mp hplan
  rw [payable_iff (hc.debits_nodup hsettled hplan) (fun d hd => (hpoints d hd).2) hc.pointsOf_fits]
  have hlisted : c.Debitable e ↔ ∀ p ∈ c.participantsOf e.id, ∀ n,
      awardPoints (c.field e.id).length p.placement e.multiplier = .ok n →
        -(pointsLimit : Int) ≤ c.pointsOf p.membershipId - n := by
    simp only [Debitable, mem_participantsOf]
  rw [hlisted]
  refine (forall_mem_iff_of_forall₂ (hsettled.reverses hplan) fun p d hd => ?_).symm
  have hmembership : p.membershipId = d.membershipId := (Prod.mk.inj hd.seat).2.symm
  rw [hd.points, hmembership]
  have hdebit := fitsPoints_sub_iff (hc.pointsOf_fits d.membershipId) (awardPoints_nonneg hd.points)
  rw [Int.sub_neg] at hdebit
  refine Iff.trans ?_ hdebit.symm
  constructor
  · intro hroom
    have hleft := hroom (-d.points) rfl
    rwa [Int.sub_neg] at hleft
  · intro hleft n hn
    obtain rfl := Except.ok.inj hn
    rwa [Int.sub_neg]

theorem undoEndEvent_succeeds_iff (hc : c.Consistent) (he : c.event? e.id = some e)
    (hended : e.state.isEnded = true) (hsettled : c.Settled e) :
    (∃ answer c', (Service.undoEndEvent e.id).Yields c answer c') ↔ c.Debitable e := by
  constructor
  · rintro ⟨answer, c', h⟩
    obtain ⟨e', deltas, rankings, he', -, hplan, hnet, hfold, -⟩ :=
      (Service.undoEndEvent_yields hc).mp h
    obtain rfl := Option.some.inj (he.symm.trans he')
    exact (hc.debitable_iff hsettled hplan).mp ⟨deltas, rankings, hnet, hfold⟩
  · intro hdebitable
    obtain ⟨debits, hplan⟩ := hc.reversal hsettled
    obtain ⟨deltas, rankings, hnet, hfold⟩ := (hc.debitable_iff hsettled hplan).mpr hdebitable
    exact ⟨_, _, (Service.undoEndEvent_yields hc).mpr
      ⟨e, deltas, rankings, he, hended, hplan, hnet, hfold, rfl⟩⟩

/-- All who are debited have a ranking, so none is made. -/
theorem debited (hc : c.Consistent) (hsettled : c.Settled e)
    (hplan : planReversal (c.participantsOf e.id) e.multiplier = .ok debits)
    (hnet : netDeltas debits = .ok deltas)
    (hfold : deltas.foldlM Statement.creditRanking c.rankings = .ok rankings) :
    List.Forall₂ (Ranking.PaidBy debits) c.rankings rankings := by
  obtain ⟨kept, fresh, rfl, hkept, -, hfresh⟩ :=
    paid_of_netDeltas (hc.debits_nodup hsettled hplan) hc.ranking_ids hnet hfold
  have hnone : fresh = [] := by
    refine List.eq_nil_iff_forall_not_mem.mpr fun r hr => ?_
    obtain ⟨d, hd, hunranked, -⟩ := (hfresh r).mp hr
    have hmem : d.membershipId ∈ (c.participantsOf e.id).map (·.membershipId) := by
      rw [← Award.memberships_of_seats (hsettled.debit_seats hplan)]
      exact List.mem_map_of_mem hd
    obtain ⟨p, hp, hm⟩ := List.mem_map.mp hmem
    exact hunranked (hm ▸ hsettled.ranked p (mem_participantsOf.mp hp))
  rwa [hnone, List.append_nil]

theorem undoEndEvent_reopens (hc : c.Consistent) (he : c.event? e.id = some e)
    (hsettled : c.Settled e)
    (hplan : planReversal (c.participantsOf e.id) e.multiplier = .ok debits)
    (h : (Service.undoEndEvent e.id).Yields c answer c') :
    answer = debits ∧ c.Reopens e debits c' := by
  obtain ⟨e', deltas, rankings, he', -, hplan', hnet, hfold, rfl⟩ :=
    (Service.undoEndEvent_yields hc).mp h
  obtain rfl := Option.some.inj (he.symm.trans he')
  obtain rfl := Except.ok.inj (hplan.symm.trans hplan')
  exact ⟨rfl, {
    rankings := hc.debited hsettled hplan hnet hfold
    events := hc.events_putEvent (Statement.event?_eq_some he).1 .started
    participants := rfl
    memberships := rfl
    semesters := rfl }⟩

end Club.Consistent

/-! ## What is in the way -/

namespace Service

theorem undoEndEvent_of_absent (h : c.event? event = none) :
    (undoEndEvent event).Fails c (.notFound .event event.uuid) :=
  fails_of_absent h

theorem undoEndEvent_of_started (he : c.event? event = some e) (hopen : e.state.isEnded = false) :
    (undoEndEvent event).Fails c (.forbidden (.notEnded event)) :=
  fails_of_refused (fun x => !x.state.isEnded) he (by rw [hopen]; rfl)

/-- Once the reversal has been made, nothing but a breakdown is in the way of the undo. -/
theorem undoEndEvent_internal (he : c.event? event = some e) (hended : e.state.isEnded = true)
    (hplan : planReversal (c.participantsOf event) e.multiplier = .ok debits)
    (hmemberships : ∀ d ∈ debits, d.membershipId ∈ c.memberships.map (·.id)) :
    (undoEndEvent event).FailsOnly ServiceError.IsInternal c := by
  refine .transaction (.bind regular_getEvent fun _ => .bind regular_failIf fun _ =>
    .bind (regular_store regular_read) fun _ => .bind regular_ofExcept fun _ =>
      .bind regular_applyToRankings fun _ =>
        .bind (regular_store Store.regular_setState) fun _ => regular_pure) ?_
  refine .of_yields (getEvent_yields.mpr ⟨he, rfl⟩) ?_
  refine .of_yields (a := ()) (failIf_yields.mpr ⟨by rw [hended]; rfl, rfl⟩) ?_
  refine .of_yields (store_yields.mpr (read_yields.mpr ⟨rfl, rfl⟩)) ?_
  refine .of_yields (ofExcept_yields.mpr ⟨hplan, rfl⟩) ?_
  refine .bind regular_applyToRankings (applyToRankings_internal debits) fun _ c₁ happly => ?_
  obtain ⟨deltas, rankings, -, -, rfl⟩ := (applyToRankings_yields hmemberships).mp happly
  exact .of_yields (a := ()) (store_yields.mpr (Store.setState_yields.mpr ⟨e, he, rfl⟩))
    failsOnly_pure

end Service

/-- Undoing the end of an event that does not exist or has not ended is refused as such. Of an event
that has ended, each of the field is debited what the recorded placement was awarded, and where the
database itself does not fail, the undo succeeds exactly if the rankings have the points for it. -/
theorem undo_end_event_outcome {steps : List Step} (hsteps : ∀ x ∈ steps, x.isService = true)
    (event : EventId) :
    let c := (Session.start.after steps).club
    let outcome := ((Service.undoEndEvent event).run ⟨c, none⟩).1
    (∀ entity id, outcome = .error (.notFound entity id) ↔
      c.event? event = none ∧ entity = .event ∧ id = event.uuid) ∧
    (∀ why, outcome = .error (.forbidden why) ↔
      (∃ e, c.event? event = some e ∧ e.state = .started) ∧ why = .notEnded event) ∧
    ∀ e, c.event? event = some e → e.state = .ended →
      ∃ debits, planReversal (c.participantsOf event) e.multiplier = .ok debits ∧
        List.Forall₂ (Award.Reverses (c.field event).length e.multiplier) (c.participantsOf event)
          debits ∧
        ((∃ answer, outcome = .ok answer) ↔ c.Debitable e) ∧
        (∀ answer c', (Service.undoEndEvent event).Yields c answer c' →
          answer = debits ∧ c.Reopens e debits c') ∧
        (¬ c.Debitable e → ∃ cause, outcome = .error (.internal cause)) := by
  intro c outcome
  have hc : c.Consistent :=
    Session.consistent_after fun x hx => Step.isProgram_of_isService (hsteps x hx)
  cases he : c.event? event with
  | none =>
      have hout : outcome = .error (.notFound .event event.uuid) :=
        Service.undoEndEvent_of_absent he
      simp [hout, eq_comm]
  | some e =>
      obtain ⟨hmem, rfl⟩ := Statement.event?_eq_some he
      cases hstate : e.state with
      | started =>
          have hout : outcome = .error (.forbidden (.notEnded e.id)) :=
            Service.undoEndEvent_of_started he (hstate ▸ rfl)
          simp [hout, hstate, eq_comm]
      | ended =>
          have hended : e.state.isEnded = true := hstate ▸ rfl
          have hsettled : c.Settled e := Session.allSettled_after hsteps e hmem hended
          obtain ⟨debits, hplan⟩ := hc.reversal hsettled
          have hok : (∃ answer, outcome = .ok answer) ↔ c.Debitable e :=
            (exists_congr fun _ => (Service.composed_undoEndEvent e.id).regular.answer_ok).trans
              (hc.undoEndEvent_succeeds_iff he hended hsettled)
          have hinternal : ∀ err, outcome = .error err → err.IsInternal :=
            Service.undoEndEvent_internal he hended hplan
              (hc.award_memberships e.id
                (fun x hx => ((c.participantsOf_perm e.id).map _).mem_iff.mp hx)
                (hsettled.debit_seats hplan))
          refine ⟨fun entity id => ?_, fun why => ?_, fun e' he' _ => ?_⟩
          · simp [ne_error_of_internal hinternal (.notFound entity id) nofun]
          · simp [ne_error_of_internal hinternal (.forbidden why) nofun, hstate]
          · obtain rfl := Option.some.inj he'
            exact ⟨debits, hplan, hsettled.reverses hplan, hok,
              fun _ _ => hc.undoEndEvent_reopens he hsettled hplan,
              fun hnot => eq_internal_of_not_ok hinternal (mt hok.mp hnot)⟩

/-! ## Rankings with few points left

After the end of an event, the points of its winner are corrected to what is just enough for the
debit of twenty points, and then by one more.
-/

namespace Overdrawn

open Night (uuid time)

def corrected (deltas : List Int) : List Step :=
  Night.whole ++ deltas.map fun delta =>
    .call ⟨uuid 9, time 90⟩ (.service (.updateRanking ⟨uuid 2⟩ delta))

def club (points : Int) : Club :=
  (Night.club (time 50)).closed (Night.event (time 50)) Night.awards
    [⟨⟨uuid 2⟩, points, 0⟩, ⟨⟨uuid 3⟩, 10, 0⟩]

theorem after_enough : Session.start.after (corrected [-pointsLimit]) =
    ⟨club (20 - pointsLimit), none⟩ := by
  rw [corrected, Session.after_append, Night.after_whole]
  decide +kernel

theorem after_short : Session.start.after (corrected [-pointsLimit, -1]) =
    ⟨club (19 - pointsLimit), none⟩ := by
  rw [corrected, Session.after_append, Night.after_whole]
  decide +kernel

theorem isService (deltas : List Int) : ∀ x ∈ corrected deltas, x.isService = true := by
  intro x hx
  rcases List.mem_append.mp hx with hx | hx
  · exact Night.isService_whole x hx
  · obtain ⟨delta, -, rfl⟩ := List.mem_map.mp hx
    rfl

def ended : Event := { Night.event (time 50) with state := .ended }

theorem event?_club (points : Int) : (club points).event? ⟨uuid 4⟩ = some ended := rfl

/-- The winner was awarded twenty points, and the other one has the ten that are to be debited. -/
theorem debitable_iff (points : Int) :
    (club points).Debitable ended ↔ -(pointsLimit : Int) ≤ points - 20 := by
  have hfield : (club points).field ended.id =
      [⟨⟨uuid 5⟩, ⟨uuid 2⟩, ⟨uuid 4⟩, 1, some (time 70), time 5⟩,
        ⟨⟨uuid 6⟩, ⟨uuid 3⟩, ⟨uuid 4⟩, 2, some (time 50), time 6⟩] := rfl
  have hwinner : awardPoints 2 1 .one = .ok 20 := by decide +kernel
  have hlast : awardPoints 2 2 .one = .ok 10 := by decide +kernel
  have hpoints : (club points).pointsOf ⟨uuid 2⟩ = points := rfl
  have hten : (club points).pointsOf ⟨uuid 3⟩ = 10 := rfl
  have hmultiplier : ended.multiplier = .one := rfl
  simp [Debitable, hfield, hmultiplier, hwinner, hlast, hpoints, hten]

end Overdrawn

theorem overdrawn_not_undone :
    (∃ answer, ((Service.undoEndEvent ⟨Night.uuid 4⟩).run
      ⟨(Session.start.after (Overdrawn.corrected [-pointsLimit])).club, none⟩).1 = .ok answer) ∧
    ∃ cause, ((Service.undoEndEvent ⟨Night.uuid 4⟩).run
      ⟨(Session.start.after (Overdrawn.corrected [-pointsLimit, -1])).club, none⟩).1 =
        .error (.internal cause) := by
  obtain ⟨-, -, henough⟩ := undo_end_event_outcome (Overdrawn.isService [-pointsLimit])
    ⟨Night.uuid 4⟩
  obtain ⟨-, -, hshort⟩ := undo_end_event_outcome (Overdrawn.isService [-pointsLimit, -1])
    ⟨Night.uuid 4⟩
  rw [Overdrawn.after_enough] at henough ⊢
  rw [Overdrawn.after_short] at hshort ⊢
  obtain ⟨-, -, -, hok, -, -⟩ := henough Overdrawn.ended (Overdrawn.event?_club _) rfl
  obtain ⟨-, -, -, -, -, hinternal⟩ := hshort Overdrawn.ended (Overdrawn.event?_club _) rfl
  refine ⟨hok.mpr ?_, hinternal ?_⟩
  · rw [Overdrawn.debitable_iff]
    omega
  · rw [Overdrawn.debitable_iff]
    omega

end CardClub
