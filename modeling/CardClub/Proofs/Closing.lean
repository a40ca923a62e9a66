import CardClub.Proofs.Effect
import CardClub.Proofs.Listing
import CardClub.Proofs.Schema

/-!
# Ending an event and undoing the end

Ending an event leaves all of its field signed out and placed in finishing order, and its awards
credited. Undoing the end debits what the recorded placements were awarded and leaves the
participants as they are. Both are described here in full, with what they need to succeed.
-/

namespace CardClub

open Work

/-- The participant, signed out at an instant unless signed out before. -/
def Participant.leave (time : Instant) (p : Participant) : Participant :=
  { p with signedOutAt := some (p.signOutOr time) }

/-- The field of an event in finishing order, all signed out. -/
def Club.finishers (c : Club) (e : Event) : List Participant :=
  ((c.field e.id).map (Participant.leave e.startDate)).mergeSort Club.listedBefore

/-- The placements of some awards. -/
def Award.places (awards : List Award) : List (ParticipantId × Nat) :=
  awards.map fun a => (a.participantId, a.placement)

/-- The participant with the placement of its award. -/
def Participant.placedBy (awards : List Award) (p : Participant) : Participant :=
  { p with placement := (Statement.placementIn (Award.places awards) p).getD p.placement }

/-- The tables when an event has ended and all have left it. -/
def Club.left (c : Club) (e : Event) : Club :=
  { Statement.putEvent c { e with state := .ended } with
    participants := replaceWhere (fun p => decide (p.eventId = e.id))
      (Participant.leave e.startDate) c.participants }

/-- The tables when, besides, some awards have been placed and the rankings have changed. -/
def Club.closed (c : Club) (e : Event) (awards : List Award) (rankings : List Ranking) : Club :=
  { c.left e with
    participants := replaceWhere (fun p => decide (p.eventId = e.id))
      (fun p => (p.leave e.startDate).placedBy awards) c.participants
    rankings }

/-- The tables after an event has been started again, with the rankings as they are then. -/
def Club.reopened (c : Club) (e : Event) (rankings : List Ranking) : Club :=
  { Statement.putEvent c { e with state := .started } with rankings }

variable {c c' : Club} {event : EventId}

namespace Store

@[simp] theorem regular_batchUpdateRankings {deltas : List (MembershipId × Int)} :
    Regular (batchUpdateRankings deltas) :=
  (composed_batchUpdateRankings deltas).regular

@[simp] theorem regular_setState {state : EventState} : Regular (setState event state) :=
  (composed_setState event state).regular

@[simp] theorem setState_yields {state : EventState} {u : Unit} :
    (setState event state).Yields c u c' ↔
      ∃ e, c.event? event = some e ∧ c' = Statement.putEvent c { e with state } := by
  have hst : (setState event state).Yields c u c' ↔
      ∃ n, Statement.setState event state c = .ok (n, c') ∧ n ≠ 0 := by
    simp [setState, bind_yields]
  rw [hst, Statement.setState]
  cases c.event? event with
  | none => simp
  | some e => simp [eq_comm]

@[simp] theorem regular_forceSignOut {time : Instant} : Regular (forceSignOut event time) :=
  regular_write

@[simp] theorem forceSignOut_yields {time : Instant} {n : Nat} :
    (forceSignOut event time).Yields c n c' ↔ Statement.forceSignOut event time c = .ok (n, c') :=
  write_yields

@[simp] theorem regular_setPlacements {placements : List (ParticipantId × Nat)} :
    Regular (setPlacements placements) :=
  (composed_setPlacements placements).regular

@[simp] theorem setPlacements_yields {placements : List (ParticipantId × Nat)} {n : Nat} :
    (setPlacements placements).Yields c n c' ↔ (∀ x ∈ placements, x.2 < counterLimit) ∧
      Statement.setPlacements placements c = .ok (n, c') := by
  have hsmall (x : ParticipantId × Nat) : fitsCounter x.2 = true ↔ x.2 < counterLimit := by
    rw [fitsCounter_iff]
    omega
  unfold setPlacements
  split
  · next x hx =>
    have hlarge : ¬ x.2 < counterLimit := by
      rw [← hsmall]
      simpa using List.find?_some hx
    have hmem := List.mem_of_find?_eq_some hx
    simp only [fail_yields, false_iff, not_and]
    exact fun h => absurd (h x hmem) hlarge
  · next hnone =>
    have hall : ∀ x ∈ placements, x.2 < counterLimit := fun x hx =>
      (hsmall x).mp (by simpa using List.find?_eq_none.mp hnone x hx)
    cases placements with
    | nil =>
        have hnothing : Statement.setPlacements [] c = .ok (0, c) := by
          simp [Statement.setPlacements, Statement.changeParticipants, Statement.placementIn,
            replaceWhere]
        simp [hnothing]
    | cons x placements =>
        rw [List.isEmpty_cons, if_neg Bool.false_ne_true, write_yields]
        exact ⟨fun h => ⟨hall, h⟩, fun h => h.2⟩

end Store

/-! ## Fields -/

namespace Club

theorem mem_field {p : Participant} :
    p ∈ c.field event ↔ p ∈ c.participants ∧ p.eventId = event := by
  simp [field]

theorem field_replaceWhere {test : Participant → Bool} {change : Participant → Participant}
    (htest : ∀ p ∈ c.participants, test p = true → p.eventId ≠ event)
    (hchange : ∀ p, (change p).eventId = p.eventId) :
    { c with participants := replaceWhere test change c.participants }.field event =
    c.field event := by
  rw [field, filter_replaceWhere fun p _ _ => by rw [hchange p]]
  apply replaceWhere_eq_self
  intro p hp ht
  obtain ⟨hp, hevent⟩ := mem_field.mp hp
  exact absurd hevent (htest p hp ht)

theorem field_replaceWhere_self {change : Participant → Participant}
    (hchange : ∀ p, (change p).eventId = p.eventId) :
    { c with
      participants :=
        replaceWhere (fun p => decide (p.eventId = event)) change c.participants }.field
        event = (c.field event).map change := by
  rw [field, filter_replaceWhere fun p _ _ => by rw [hchange p], replaceWhere]
  exact List.map_congr_left fun p hp => if_pos (decide_eq_true (mem_field.mp hp).2)

end Club

@[simp] theorem Participant.leave_of_signedOut {p : Participant} {t time : Instant}
    (h : p.signedOutAt = some t) : p.leave time = p := by
  cases p
  simp_all [leave, signOutOr]

/-- Signing out all who are still at the table of an event makes all of its field leave. -/
theorem forceSignOut_eq_leave (event : EventId) (time : Instant) :
    Statement.forceSignOut event time c =
      .ok ((c.participants.filter fun p => decide (p.eventId = event) && p.isActive).length,
        { c with
          participants := replaceWhere (fun p => decide (p.eventId = event))
            (Participant.leave time.stored) c.participants }) := by
  have hleave : replaceWhere (fun p => decide (p.eventId = event) && p.isActive)
      (fun p => { p with signedOutAt := some time.stored }) c.participants =
      replaceWhere (fun p => decide (p.eventId = event)) (Participant.leave time.stored)
      c.participants := by
    apply List.map_congr_left
    intro p _
    by_cases hevent : p.eventId = event
    · cases htime : p.signedOutAt with
      | none => simp [hevent, Participant.isActive, htime, Participant.leave, Participant.signOutOr]
      | some t => simp [hevent, Participant.isActive, htime]
    · simp [hevent]
  rw [Statement.forceSignOut, Statement.changeParticipants, hleave]

theorem forceSignOut_eq {e : Event} (hstart : e.startDate.stored = e.startDate) :
    Statement.forceSignOut e.id e.startDate c =
      .ok ((c.participants.filter fun p => decide (p.eventId = e.id) && p.isActive).length,
        { c with
          participants := replaceWhere (fun p => decide (p.eventId = e.id))
            (Participant.leave e.startDate) c.participants }) := by
  rw [forceSignOut_eq_leave, hstart]

namespace Club

theorem field_left (e : Event) :
    (c.left e).field e.id = (c.field e.id).map (Participant.leave e.startDate) :=
  field_replaceWhere_self fun _ => rfl

theorem participantsOf_left (e : Event) : (c.left e).participantsOf e.id = c.finishers e := by
  rw [participantsOf, field_left, finishers]

theorem signedOut_of_mem_finishers {e : Event} {p : Participant} (h : p ∈ c.finishers e) :
    p.signedOutAt.isSome = true := by
  obtain ⟨q, -, rfl⟩ := List.mem_map.mp ((List.mergeSort_perm _ _).mem_iff.mp h)
  rfl

theorem finishingOrder_left (e : Event) :
    finishingOrder e.startDate ((c.left e).participantsOf e.id) = c.finishers e := by
  rw [finishingOrder_participantsOf, participantsOf_left]
  intro p hp
  rw [← mem_participantsOf, participantsOf_left] at hp
  exact signedOut_of_mem_finishers hp

theorem finishers_seats (e : Event) :
    (Participant.seats (c.finishers e)).Perm (Participant.seats (c.field e.id)) := by
  have hperm := (List.mergeSort_perm ((c.field e.id).map (Participant.leave e.startDate))
    listedBefore).map fun p => (p.id, p.membershipId)
  rw [List.map_map] at hperm
  exact hperm

theorem length_finishers (e : Event) : (c.finishers e).length = (c.field e.id).length := by
  rw [finishers, List.length_mergeSort, List.length_map]

end Club

/-! ## Placing -/

variable {awards : List Award}

theorem Statement.placementIn_isSome {p : Participant} :
    (Statement.placementIn (Award.places awards) p).isSome = true ↔
    p.id ∈ awards.map (·.participantId) := by
  rw [placementIn, Option.isSome_map, isSome_find?_key, Award.places, List.map_map]
  rfl

theorem setPlacements_eq :
    Statement.setPlacements (Award.places awards) c =
      .ok ((c.participants.filter fun p =>
          (Statement.placementIn (Award.places awards) p).isSome).length,
        { c with participants := c.participants.map (Participant.placedBy awards) }) := by
  have hplaced : replaceWhere (fun p => (Statement.placementIn (Award.places awards) p).isSome)
      (Participant.placedBy awards) c.participants =
      c.participants.map (Participant.placedBy awards) := by
    apply List.map_congr_left
    intro p _
    cases hplace : Statement.placementIn (Award.places awards) p with
    | none => simp [Participant.placedBy, hplace]
    | some k => simp [hplace]
  rw [Statement.setPlacements, Statement.changeParticipants, ← hplaced]
  rfl

theorem Participant.placedBy_of_not_mem {p : Participant}
    (h : p.id ∉ awards.map (·.participantId)) :
    p.placedBy awards = p := by
  have hnone : Statement.placementIn (Award.places awards) p = none := by
    rw [← Option.not_isSome_iff_eq_none, Statement.placementIn_isSome]
    exact h
  simp [placedBy, hnone]

/-! ## The two calls -/

namespace Service

@[simp] theorem regular_applyToRankings {plan : List Award} : Regular (applyToRankings plan) :=
  (composed_applyToRankings plan).regular

theorem applyToRankings_yields {plan : List Award} {u : Unit}
    (hplan : ∀ a ∈ plan, a.membershipId ∈ c.memberships.map (·.id)) :
    (applyToRankings plan).Yields c u c' ↔
      ∃ deltas rankings, netDeltas plan = .ok deltas ∧
        deltas.foldlM Statement.creditRanking c.rankings = .ok rankings ∧
        c' = { c with rankings } := by
  have hcredit : (applyToRankings plan).Yields c u c' ↔
      ∃ deltas, netDeltas plan = .ok deltas ∧
      ∃ n, Statement.creditRankings deltas c = .ok (n, c') := by
    simp [applyToRankings, bind_yields]
  rw [hcredit]
  constructor
  · rintro ⟨deltas, hnet, n, hst⟩
    obtain ⟨-, -, rankings, hfold, rfl⟩ := Statement.creditRankings_ok.mp hst
    exact ⟨deltas, rankings, hnet, hfold, rfl⟩
  · rintro ⟨deltas, rankings, hnet, hfold, rfl⟩
    refine ⟨deltas, hnet, _,
      Statement.creditRankings_ok.mpr ⟨fun d hd => ?_, rfl, rankings, hfold, rfl⟩⟩
    obtain ⟨a, ha, heq⟩ :=
      List.mem_map.mp (((netDeltas_ok hnet).2.1 d.1).mp (List.mem_map_of_mem hd))
    exact heq ▸ hplan a ha

end Service

namespace Club.Consistent

theorem award_memberships (hc : c.Consistent) (event : EventId) {l : List Participant}
    (hl : ∀ x ∈ Participant.seats l, x ∈ Participant.seats (c.field event))
    (hseats : Award.seats awards = Participant.seats l) :
    ∀ a ∈ awards, a.membershipId ∈ c.memberships.map (·.id) := by
  intro a ha
  have hmem : (a.participantId, a.membershipId) ∈ Participant.seats (c.field event) :=
    hl _ (hseats ▸ List.mem_map_of_mem ha)
  obtain ⟨p, hp, heq⟩ := List.mem_map.mp hmem
  obtain ⟨-, hm⟩ := Prod.mk.inj heq
  exact hm ▸ hc.participant_membership p (Club.mem_field.mp hp).1

theorem placedBy_other (hc : c.Consistent) {e : Event}
    (hseats : Award.seats awards = Participant.seats (c.finishers e)) {p : Participant}
    (hp : p ∈ c.participants) (hevent : p.eventId ≠ e.id) : p.placedBy awards = p := by
  apply Participant.placedBy_of_not_mem
  intro hmem
  obtain ⟨a, ha, hid⟩ := List.mem_map.mp hmem
  have hseat : (a.participantId, a.membershipId) ∈ Participant.seats (c.field e.id) :=
    (finishers_seats e).mem_iff.mp (hseats ▸ List.mem_map_of_mem ha)
  obtain ⟨q, hq, heq⟩ := List.mem_map.mp hseat
  obtain ⟨hid', -⟩ := Prod.mk.inj heq
  obtain ⟨hq, hqevent⟩ := mem_field.mp hq
  obtain rfl : q = p := List.inj_on_of_nodup_map hc.participant_ids hq hp (hid'.trans hid)
  exact hevent hqevent

theorem closed_eq (hc : c.Consistent) {e : Event} (rankings : List Ranking)
    (hseats : Award.seats awards = Participant.seats (c.finishers e)) :
    { c.left e with
      participants := (c.left e).participants.map (Participant.placedBy awards)
      rankings } = c.closed e awards rankings := by
  have hparticipants : (c.left e).participants.map (Participant.placedBy awards) =
      (c.closed e awards rankings).participants := by
    rw [left, closed, replaceWhere, replaceWhere, List.map_map]
    apply List.map_congr_left
    intro p hp
    by_cases hevent : p.eventId = e.id
    · simp [hevent]
    · simp [hevent, hc.placedBy_other hseats hp hevent]
  rw [hparticipants]
  rfl

end Club.Consistent

namespace Service

/-- Ending an event succeeds when its plan can be made, netted, credited and written. -/
theorem endEvent_yields (hc : c.Consistent) {answer : Standings} :
    (endEvent event).Yields c answer c' ↔
      ∃ e awards deltas rankings, c.event? event = some e ∧ e.state.isEnded = false ∧
        planAwards (c.finishers e) e.multiplier = .ok awards ∧ netDeltas awards = .ok deltas ∧
        deltas.foldlM Statement.creditRanking c.rankings = .ok rankings ∧
        (∀ x ∈ Award.places awards, x.2 < counterLimit) ∧ ⟨event, awards.length, awards⟩ = answer ∧
        c' = c.closed e awards rankings := by
  have hbody : (endEvent event).Yields c answer c' ↔
      ∃ e, c.event? event = some e ∧ e.state.isEnded = false ∧ ∃ n c₁,
        Statement.forceSignOut event e.startDate c = .ok (n, c₁) ∧ ∃ e', c₁.event? event = some e' ∧
        ∃ awards, planAwards (finishingOrder e.startDate
          ((Statement.putEvent c₁ { e' with state := .ended }).participantsOf event)) e.multiplier =
            .ok awards ∧
        ∃ u c₂, (applyToRankings awards).Yields
          (Statement.putEvent c₁ { e' with state := .ended }) u c₂ ∧
        ∃ k, ((∀ x ∈ Award.places awards, x.2 < counterLimit) ∧
          Statement.setPlacements (Award.places awards) c₂ = .ok (k, c')) ∧
          ⟨event, awards.length, awards⟩ = answer := by
    simp [endEvent, bind_yields, Store.listParticipants, Award.places]
  rw [hbody]
  constructor
  · rintro ⟨e, he, hopen, n, c₁, hforce, e', he', awards, hplan, u, c₂, happly, k,
      ⟨hsmall, hplace⟩, rfl⟩
    obtain ⟨hmem, rfl⟩ := Statement.event?_eq_some he
    rw [forceSignOut_eq (hc.events_admissible e hmem).startDate] at hforce
    obtain ⟨-, rfl⟩ := Prod.mk.inj (Except.ok.inj hforce)
    obtain rfl : e = e' := Option.some.inj (he.symm.trans he')
    change planAwards (finishingOrder e.startDate ((c.left e).participantsOf e.id)) _ = _ at hplan
    change (applyToRankings awards).Yields (c.left e) u c₂ at happly
    rw [Club.finishingOrder_left] at hplan
    obtain ⟨-, hseats, -⟩ := planAwards_ok.mp hplan
    have hmemberships : ∀ a ∈ awards, a.membershipId ∈ (c.left e).memberships.map (·.id) :=
      hc.award_memberships e.id (fun x hx => (Club.finishers_seats e).mem_iff.mp hx) hseats
    obtain ⟨deltas, rankings, hnet, hfold, rfl⟩ := (applyToRankings_yields hmemberships).mp happly
    rw [setPlacements_eq] at hplace
    obtain ⟨-, rfl⟩ := Prod.mk.inj (Except.ok.inj hplace)
    exact ⟨e, awards, deltas, rankings, he, hopen, hplan, hnet, hfold, hsmall, rfl,
      hc.closed_eq rankings hseats⟩
  · rintro ⟨e, awards, deltas, rankings, he, hopen, hplan, hnet, hfold, hsmall, rfl, rfl⟩
    obtain ⟨hmem, rfl⟩ := Statement.event?_eq_some he
    obtain ⟨-, hseats, -⟩ := planAwards_ok.mp hplan
    have hmemberships : ∀ a ∈ awards, a.membershipId ∈ (c.left e).memberships.map (·.id) :=
      hc.award_memberships e.id (fun x hx => (Club.finishers_seats e).mem_iff.mp hx) hseats
    have happly : (applyToRankings awards).Yields (c.left e) () { c.left e with rankings } :=
      (applyToRankings_yields hmemberships).mpr ⟨deltas, rankings, hnet, hfold, rfl⟩
    have hplace := @setPlacements_eq { c.left e with rankings } awards
    rw [hc.closed_eq rankings hseats] at hplace
    refine ⟨e, he, hopen, _, _, forceSignOut_eq (hc.events_admissible e hmem).startDate, e, he,
      awards, ?_, (), _, happly, _, ⟨hsmall, hplace⟩, rfl⟩
    exact (congrArg (planAwards · e.multiplier) (Club.finishingOrder_left e)).trans hplan

/-- Undoing the end of an event succeeds when the reversal can be made, netted and credited. -/
theorem undoEndEvent_yields (hc : c.Consistent) {debits : List Award} :
    (undoEndEvent event).Yields c debits c' ↔
      ∃ e deltas rankings, c.event? event = some e ∧ e.state.isEnded = true ∧
        planReversal (c.participantsOf event) e.multiplier = .ok debits ∧
        netDeltas debits = .ok deltas ∧
        deltas.foldlM Statement.creditRanking c.rankings = .ok rankings ∧
        c' = c.reopened e rankings := by
  have hbody : (undoEndEvent event).Yields c debits c' ↔
      ∃ e, c.event? event = some e ∧ e.state.isEnded = true ∧
        planReversal (c.participantsOf event) e.multiplier = .ok debits ∧
        ∃ u c₁, (applyToRankings debits).Yields c u c₁ ∧ ∃ e', c₁.event? event = some e' ∧
          c' = Statement.putEvent c₁ { e' with state := .started } := by
    simp [undoEndEvent, bind_yields, Store.listParticipants]
  have hmemberships {e : Event}
      (hplan : planReversal (c.participantsOf event) e.multiplier = .ok debits) :
      ∀ a ∈ debits, a.membershipId ∈ c.memberships.map (·.id) := by
    obtain ⟨-, hseats, -⟩ := planReversal_ok.mp hplan
    refine hc.award_memberships event (fun x hx => ?_) hseats
    obtain ⟨p, hp, rfl⟩ := List.mem_map.mp hx
    exact List.mem_map_of_mem (Club.mem_participantsOf.mp (List.mem_of_mem_filter hp))
  rw [hbody]
  constructor
  · rintro ⟨e, he, hended, hplan, u, c₁, happly, e', he', rfl⟩
    obtain ⟨deltas, rankings, hnet, hfold, rfl⟩ :=
      (applyToRankings_yields (hmemberships hplan)).mp happly
    obtain rfl : e = e' := Option.some.inj (he.symm.trans he')
    exact ⟨e, deltas, rankings, he, hended, hplan, hnet, hfold, rfl⟩
  · rintro ⟨e, deltas, rankings, he, hended, hplan, hnet, hfold, rfl⟩
    refine ⟨e, he, hended, hplan, (), { c with rankings }, ?_, e, he, rfl⟩
    exact (applyToRankings_yields (hmemberships hplan)).mpr ⟨deltas, rankings, hnet, hfold, rfl⟩

end Service

/-! ## The field after the end -/

theorem Statement.placementIn_of_mem (hids : (awards.map (·.participantId)).Nodup) {a : Award}
    (ha : a ∈ awards) {p : Participant} (hid : a.participantId = p.id) :
    Statement.placementIn (Award.places awards) p = some a.placement := by
  have hkeys : ((Award.places awards).map (·.1)).Nodup := by
    rw [Award.places, List.map_map]
    exact hids
  have hmem : (a.participantId, a.placement) ∈ Award.places awards := List.mem_map_of_mem ha
  rw [placementIn, ← hid, find?_key hkeys hmem]
  rfl

theorem Award.ids_of_seats {l : List Participant} (h : Award.seats awards = Participant.seats l) :
    awards.map (·.participantId) = l.map (·.id) := by
  have hfst := congrArg (List.map Prod.fst) h
  simpa [Award.seats, Participant.seats, Function.comp_def] using hfst

theorem Award.memberships_of_seats {l : List Participant}
    (h : Award.seats awards = Participant.seats l) :
    awards.map (·.membershipId) = l.map (·.membershipId) := by
  have hsnd := congrArg (List.map Prod.snd) h
  simpa [Award.seats, Participant.seats, Function.comp_def] using hsnd

theorem placements_placedBy {l : List Participant} (hids : (l.map (·.id)).Nodup)
    (hseats : Award.seats awards = Participant.seats l) :
    (l.map (Participant.placedBy awards)).map (·.placement) = awards.map (·.placement) := by
  have heq := Award.ids_of_seats hseats
  apply List.ext_getElem (by simpa using congrArg List.length heq.symm)
  intro i hi hi'
  simp only [List.length_map] at hi hi'
  have hid : awards[i].participantId = l[i].id := by
    have hget := List.getElem_of_eq heq (by simpa using hi')
    rwa [List.getElem_map, List.getElem_map] at hget
  have hplace := Statement.placementIn_of_mem (heq ▸ hids) (List.getElem_mem hi') hid
  simp [Participant.placedBy, hplace]

namespace Club

theorem field_closed (e : Event) (rankings : List Ranking) :
    (c.closed e awards rankings).field e.id =
      (c.field e.id).map fun p => (p.leave e.startDate).placedBy awards :=
  field_replaceWhere_self fun _ => rfl

theorem field_closed_of_ne {e : Event} {rankings : List Ranking} (h : event ≠ e.id) :
    (c.closed e awards rankings).field event = c.field event :=
  field_replaceWhere (fun _ _ hp heq => h (heq.symm.trans (of_decide_eq_true hp))) fun _ => rfl

theorem participantsOf_closed (e : Event) (rankings : List Ranking) :
    (c.closed e awards rankings).participantsOf e.id =
      (c.finishers e).map (Participant.placedBy awards) := by
  have hsort := mergeSort_map_listed (f := Participant.placedBy awards)
    (l := (c.field e.id).map (Participant.leave e.startDate)) (fun _ => rfl) fun _ => rfl
  rw [participantsOf, field_closed, finishers, ← hsort, List.map_map]
  rfl

theorem Consistent.field_ids (hc : c.Consistent) (event : EventId) :
    ((c.field event).map (·.id)).Nodup :=
  hc.participant_ids.sublist (List.filter_sublist.map _)

theorem Consistent.participantsOf_ids (hc : c.Consistent) (event : EventId) :
    ((c.participantsOf event).map (·.id)).Nodup :=
  ((c.participantsOf_perm event).map _).nodup_iff.mpr (hc.field_ids event)

theorem Consistent.finishers_ids (hc : c.Consistent) (e : Event) :
    ((c.finishers e).map (·.id)).Nodup := by
  have hperm := (finishers_seats (c := c) e).map Prod.fst
  simp only [Participant.seats, List.map_map] at hperm
  exact hperm.nodup_iff.mpr (hc.field_ids e.id)

end Club

theorem Award.ids_perm {e : Event}
    (hseats : Award.seats awards = Participant.seats (c.finishers e)) :
    (awards.map (·.participantId)).Perm ((c.field e.id).map (·.id)) := by
  have hperm := (Club.finishers_seats (c := c) e).map Prod.fst
  rw [← hseats] at hperm
  simpa [Award.seats, Participant.seats, Function.comp_def] using hperm

theorem Award.memberships_perm {e : Event}
    (hseats : Award.seats awards = Participant.seats (c.finishers e)) :
    (awards.map (·.membershipId)).Perm ((c.field e.id).map (·.membershipId)) := by
  have hperm := (Club.finishers_seats (c := c) e).map Prod.snd
  rw [← hseats] at hperm
  simpa [Award.seats, Participant.seats, Function.comp_def] using hperm

theorem results_closed (hc : c.Consistent) {e : Event} (rankings : List Ranking)
    (hseats : Award.seats awards = Participant.seats (c.finishers e)) :
    ((c.closed e awards rankings).participantsOf e.id).map
        (fun p => (p.membershipId, p.placement)) =
      awards.map fun a => (a.membershipId, a.placement) := by
  have hplaces := placements_placedBy (hc.finishers_ids e) hseats
  have hmemberships := Award.memberships_of_seats hseats
  rw [Club.participantsOf_closed, ← List.zip_map', ← List.zip_map', hplaces, hmemberships,
    List.map_map]
  rfl

end CardClub
