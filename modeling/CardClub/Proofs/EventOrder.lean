import CardClub.Proofs.Reordering
import CardClub.Proofs.Settled

/-!
# The order of ends

Ending an event and undoing an end write the same kind of posting: the state of the event, a change
of its field, and deltas for the rankings. What is posted depends on the field of the event only,
which postings for other events leave alone. So two of them meet in the rankings at most. There
they commute because the deltas of all ends are gains and those of all undone ends are losses, and
then the range of points cannot hold in one order and fail in the other.
-/

namespace CardClub

open Club Work

/-- What is written for an event, and the answer that goes with it. -/
structure Posting (α : Type) where
  answer : α
  state : EventState
  change : Participant → Participant
  deltas : List (MembershipId × Int)

/-- The tables after a posting, with the rankings as they are then. -/
def Club.posted {α : Type} (c : Club) (e : Event) (p : Posting α) (rankings : List Ranking) :
    Club :=
  { Statement.putEvent c { e with state := p.state } with
    participants := replaceWhere (fun q => decide (q.eventId = e.id)) p.change c.participants
    rankings }

variable {α : Type} {c c' c₁ c₂ d : Club} {e e' : Event} {p p' : Posting α} {event a b : EventId}
  {rankings rankings' r r' : List Ranking} {x y : α}

namespace Club

theorem event?_posted (h : e.id ≠ event) : (c.posted e p rankings).event? event = c.event? event :=
  find?_replaceWhere h fun _ _ => rfl

theorem field_posted (hchange : ∀ q, (p.change q).eventId = q.eventId) (h : e.id ≠ event) :
    (c.posted e p rankings).field event = c.field event :=
  field_replaceWhere (fun _ _ hq heq => h ((of_decide_eq_true hq).symm.trans heq)) hchange

theorem posted_comm (hne : e.id ≠ e'.id) (hchange : ∀ q, (p.change q).eventId = q.eventId)
    (hchange' : ∀ q, (p'.change q).eventId = q.eventId) :
    (c.posted e p r).posted e' p' rankings = (c.posted e' p' r').posted e p rankings := by
  have hevents : ((c.posted e p r).posted e' p' rankings).events =
      ((c.posted e' p' r').posted e p rankings).events :=
    replaceWhere_comm hne (fun _ _ => rfl) fun _ _ => rfl
  have hparticipants : ((c.posted e p r).posted e' p' rankings).participants =
      ((c.posted e' p' r').posted e p rankings).participants :=
    replaceWhere_comm hne (fun q hq => (hchange q).trans hq) fun q hq => (hchange' q).trans hq
  exact congrArg₂ (fun events participants => { c with events, participants, rankings })
    hevents hparticipants

theorem posted_id {deltas : List (MembershipId × Int)} :
    c.posted e ⟨x, .started, id, deltas⟩ rankings = c.reopened e rankings := by
  have hsame : replaceWhere (fun q => decide (q.eventId = e.id)) id c.participants =
      c.participants := replaceWhere_eq_self fun _ _ _ => rfl
  exact congrArg (fun participants => { c.reopened e rankings with participants }) hsame

theorem posted_alike (h : r'.Perm r) : (c.posted e p r).Alike (c.posted e p r') := ⟨rfl, h⟩

end Club

/-- Work on an event that writes the postings of a plan. The plan for an event depends on its field,
and all that it credits is steady. -/
structure Posts (f : EventId → Work ServiceError α) (plan : Club → Event → Posting α → Prop) :
    Prop where
  composed : ∀ event, Composed (f event)
  yields : ∀ {c c' event x}, c.Consistent → ((f event).Yields c x c' ↔
    ∃ e p rankings, c.event? event = some e ∧ plan c e p ∧ p.answer = x ∧
      p.deltas.foldlM Statement.creditRanking c.rankings = .ok rankings ∧
      c' = c.posted e p rankings)
  plan_congr : ∀ {c c' e p}, c'.field e.id = c.field e.id → plan c e p → plan c' e p
  keeps_event : ∀ {c e p}, plan c e p → ∀ q, (p.change q).eventId = q.eventId
  steady : ∀ {c c' e e' p p'}, plan c e p → plan c' e' p' → Steady (p.deltas ++ p'.deltas)

namespace Posts

variable {f : EventId → Work ServiceError α} {plan : Club → Event → Posting α → Prop}
  {events order : List EventId} {answers : List α} {answer : EventId → α}

theorem regular (hf : Posts f plan) (event : EventId) : Regular (f event) :=
  (hf.composed event).regular

theorem alike (hf : Posts f plan) (hc : c.Consistent) (hd : c.Alike d)
    (h : (f event).Yields c x c') : ∃ d', (f event).Yields d x d' ∧ c'.Alike d' := by
  obtain ⟨e, p, r, he, hplan, rfl, hfold, rfl⟩ := (hf.yields hc).mp h
  have hsteady : Steady p.deltas := (hf.steady hplan hplan).mono (List.subset_append_left _ _)
  obtain ⟨r', hfold', hperm⟩ := hc.creditAll_perm hsteady (.refl _) hd.rankings.symm hfold
  refine ⟨c.posted e p r', (hf.yields (hd.consistent hc)).mpr ?_, posted_alike hperm⟩
  rw [hd.others] at hfold' ⊢
  exact ⟨e, p, r', he, hf.plan_congr (Eq.refl (c.field e.id)) hplan, rfl, hfold', rfl⟩

/-- Work on two events has the same answers and the same effect the other way round. -/
theorem swap (hf : Posts f plan) (hne : a ≠ b) (hc : c.Consistent)
    (ha : (f a).Yields c x c₁) (hb : (f b).Yields c₁ y c₂) :
    ∃ d₁ d₂, (f b).Yields c y d₁ ∧ (f a).Yields d₁ x d₂ ∧ c₂.Alike d₂ := by
  have hc₁ : c₁.Consistent := (hf.composed a).consistent ha hc
  obtain ⟨e, p, r₁, he, hplan, rfl, hfold, rfl⟩ := (hf.yields hc).mp ha
  obtain ⟨e', p', r₂, he', hplan', rfl, hfold', rfl⟩ := (hf.yields hc₁).mp hb
  obtain ⟨-, rfl⟩ := Statement.event?_eq_some he
  obtain ⟨-, rfl⟩ := Statement.event?_eq_some he'
  -- the second posting is planned as it would be without the first one
  rw [event?_posted hne] at he'
  have hplan' := hf.plan_congr (field_posted (hf.keeps_event hplan) hne).symm hplan'
  obtain ⟨r', hboth, hperm⟩ := hc.creditAll_perm (hf.steady hplan hplan')
    List.perm_append_comm (.refl _) (creditAll_append_ok.mpr ⟨r₁, hfold, hfold'⟩)
  obtain ⟨between, hfirst, hsecond⟩ := creditAll_append_ok.mp hboth
  have hb' : (f e'.id).Yields c p'.answer (c.posted e' p' between) :=
    (hf.yields hc).mpr ⟨e', p', between, he', hplan', rfl, hfirst, rfl⟩
  have hd₁ := (hf.composed e'.id).consistent hb' hc
  refine ⟨_, (c.posted e p r₁).posted e' p' r', hb', (hf.yields hd₁).mpr ?_, posted_alike hperm⟩
  refine ⟨e, p, r', (event?_posted hne.symm).trans he, ?_, rfl, hsecond, ?_⟩
  · exact hf.plan_congr (field_posted (hf.keeps_event hplan') hne.symm) hplan
  · exact posted_comm hne (hf.keeps_event hplan) (hf.keeps_event hplan')

theorem mapM_alike (hf : Posts f plan) (hc : c.Consistent) (hd : c.Alike d)
    (h : (events.mapM f).Yields c answers c') :
    ∃ d', (events.mapM f).Yields d answers d' ∧ c'.Alike d' := by
  induction events generalizing c d answers with
  | nil =>
      obtain ⟨rfl, rfl⟩ := mapM_nil_yields.mp h
      exact ⟨d, mapM_nil_yields.mpr ⟨rfl, rfl⟩, hd⟩
  | cons event events ih =>
      obtain ⟨x, c₁, rest, hhead, hrest, rfl⟩ := (mapM_cons_yields hf.regular).mp h
      obtain ⟨d₁, hhead', hd₁⟩ := hf.alike hc hd hhead
      obtain ⟨d', hrest', hd'⟩ := ih ((hf.composed event).consistent hhead hc) hd₁ hrest
      exact ⟨d', (mapM_cons_yields_cons hf.regular).mpr ⟨d₁, hhead', hrest'⟩, hd'⟩

/-- Work on different events has the same answers and the same effect in every order. -/
theorem mapM_perm (hf : Posts f plan) (hperm : events.Perm order) (hevents : events.Nodup)
    (hc : c.Consistent) (hd : c.Alike d)
    (h : (events.mapM f).Yields c (events.map answer) c') :
    ∃ d', (order.mapM f).Yields d (order.map answer) d' ∧ c'.Alike d' := by
  -- the two runs may start from different orders of the rankings, as the rest of a list does
  induction hperm generalizing c d c' with
  | nil => exact hf.mapM_alike hc hd h
  | cons event _ ih =>
      obtain ⟨c₁, hhead, hrest⟩ := (mapM_cons_yields_cons hf.regular).mp h
      obtain ⟨d₁, hhead', hd₁⟩ := hf.alike hc hd hhead
      obtain ⟨d', hrest', hd'⟩ :=
        ih hevents.of_cons ((hf.composed event).consistent hhead hc) hd₁ hrest
      exact ⟨d', (mapM_cons_yields_cons hf.regular).mpr ⟨d₁, hhead', hrest'⟩, hd'⟩
  | swap a b events =>
      obtain ⟨c₁, hb, hrest⟩ := (mapM_cons_yields_cons hf.regular).mp h
      obtain ⟨c₂, ha, hrest⟩ := (mapM_cons_yields_cons hf.regular).mp hrest
      have hc₂ := (hf.composed a).consistent ha ((hf.composed b).consistent hb hc)
      have hne : b ≠ a := fun heq => (List.nodup_cons.mp hevents).1 (heq ▸ List.mem_cons_self)
      obtain ⟨c₃, c₄, ha', hb', hc₄⟩ := hf.swap hne hc hb ha
      -- the rest goes on from the tables that the two have left the other way round
      obtain ⟨c₅, hrest', hc₅⟩ := hf.mapM_alike hc₂ hc₄ hrest
      have hswapped : ((a :: b :: events).mapM f).Yields c ((a :: b :: events).map answer) c₅ :=
        (mapM_cons_yields_cons hf.regular).mpr
          ⟨c₃, ha', (mapM_cons_yields_cons hf.regular).mpr ⟨c₄, hb', hrest'⟩⟩
      obtain ⟨d', hrun, hd'⟩ := hf.mapM_alike hc hd hswapped
      exact ⟨d', hrun, hc₅.trans hd'⟩
  | trans hfirst _ ih ih' =>
      obtain ⟨c₁, hrun, hc₁⟩ := ih hevents hc (.refl c) h
      obtain ⟨d', hrun', hd'⟩ := ih' (hfirst.nodup_iff.mp hevents) hc hd hrun
      exact ⟨d', hrun', hc₁.trans hd'⟩

theorem mapM_order [Inhabited α] (hf : Posts f plan) (hevents : events.Nodup) (hc : c.Consistent)
    (h : (events.mapM f).Yields c answers c') :
    ∃ answer : EventId → α, answers = events.map answer ∧ ∀ order : List EventId,
      order.Perm events → ∃ c'', (order.mapM f).Yields c (order.map answer) c'' ∧ c'.Alike c'' := by
  obtain ⟨answer, rfl⟩ := mapM_answers hf.regular hevents h
  refine ⟨answer, rfl, ?_⟩
  intro order horder
  exact hf.mapM_perm horder.symm hevents hc (.refl c) h

end Posts

/-! ## Ends and undone ends -/

def Club.EndPosting (c : Club) (e : Event) (p : Posting Standings) : Prop :=
  ∃ awards deltas, e.state.isEnded = false ∧
    planAwards (c.finishers e) e.multiplier = .ok awards ∧ netDeltas awards = .ok deltas ∧
    (∀ x ∈ Award.places awards, x.2 < counterLimit) ∧
    p = ⟨⟨e.id, awards.length, awards⟩, .ended, fun q => (q.leave e.startDate).placedBy awards,
      deltas⟩

def Club.UndoPosting (c : Club) (e : Event) (p : Posting (List Award)) : Prop :=
  ∃ debits deltas, e.state.isEnded = true ∧
    planReversal (c.participantsOf e.id) e.multiplier = .ok debits ∧
    netDeltas debits = .ok deltas ∧ p = ⟨debits, .started, id, deltas⟩

theorem Club.EndPosting.gains {p : Posting Standings} (h : c.EndPosting e p) :
    ∀ d ∈ p.deltas, 0 ≤ d.2 := by
  obtain ⟨awards, deltas, -, hplan, hnet, -, rfl⟩ := h
  obtain ⟨-, -, -, hpoints⟩ := planAwards_ok.mp hplan
  exact netDeltas_nonneg hnet fun a ha => awardPoints_nonneg (hpoints a ha)

theorem Club.UndoPosting.losses {p : Posting (List Award)} (h : c.UndoPosting e p) :
    ∀ d ∈ p.deltas, d.2 ≤ 0 := by
  obtain ⟨debits, deltas, -, hplan, hnet, rfl⟩ := h
  obtain ⟨-, -, -, hpoints⟩ := planReversal_ok.mp hplan
  exact netDeltas_nonpos hnet fun a ha => Int.neg_nonneg.mp (awardPoints_nonneg (hpoints a ha).1)

theorem posts_endEvent : Posts Service.endEvent Club.EndPosting where
  composed := Service.composed_endEvent
  yields := by
    intro c c' event answer hc
    rw [Service.endEvent_yields hc]
    constructor
    · rintro ⟨e, awards, deltas, rankings, he, hopen, hplan, hnet, hfold, hsmall, rfl, rfl⟩
      obtain ⟨-, rfl⟩ := Statement.event?_eq_some he
      exact ⟨e, _, rankings, he, ⟨awards, deltas, hopen, hplan, hnet, hsmall, rfl⟩, rfl, hfold, rfl⟩
    · rintro ⟨e, _, rankings, he, ⟨awards, deltas, hopen, hplan, hnet, hsmall, rfl⟩, rfl, hfold,
        rfl⟩
      obtain ⟨-, rfl⟩ := Statement.event?_eq_some he
      exact ⟨e, awards, deltas, rankings, he, hopen, hplan, hnet, hfold, hsmall, rfl, rfl⟩
  plan_congr := by
    rintro c c' e _ hfield ⟨awards, deltas, hopen, hplan, hnet, hsmall, rfl⟩
    refine ⟨awards, deltas, hopen, ?_, hnet, hsmall, rfl⟩
    rwa [Club.finishers, hfield, ← Club.finishers]
  keeps_event := by
    rintro c e _ ⟨awards, deltas, -, -, -, -, rfl⟩ q
    rfl
  steady hp hp' := .of_gains (List.forall_mem_append.mpr ⟨hp.gains, hp'.gains⟩)

theorem posts_undoEndEvent : Posts Service.undoEndEvent Club.UndoPosting where
  composed := Service.composed_undoEndEvent
  yields := by
    intro c c' event answer hc
    rw [Service.undoEndEvent_yields hc]
    constructor
    · rintro ⟨e, deltas, rankings, he, hended, hplan, hnet, hfold, rfl⟩
      obtain ⟨-, rfl⟩ := Statement.event?_eq_some he
      exact ⟨e, _, rankings, he, ⟨answer, deltas, hended, hplan, hnet, rfl⟩, rfl, hfold,
        Club.posted_id.symm⟩
    · rintro ⟨e, _, rankings, he, ⟨debits, deltas, hended, hplan, hnet, rfl⟩, rfl, hfold, rfl⟩
      obtain ⟨-, rfl⟩ := Statement.event?_eq_some he
      exact ⟨e, deltas, rankings, he, hended, hplan, hnet, hfold, Club.posted_id⟩
  plan_congr := by
    rintro c c' e _ hfield ⟨debits, deltas, hended, hplan, hnet, rfl⟩
    refine ⟨debits, deltas, hended, ?_, hnet, rfl⟩
    rwa [Club.participantsOf, hfield, ← Club.participantsOf]
  keeps_event := by
    rintro c e _ ⟨debits, deltas, -, -, -, rfl⟩ q
    rfl
  steady hp hp' :=
    .of_losses (List.forall_mem_append.mpr ⟨hp.losses, hp'.losses⟩)

/-- When different events can be ended one after another, they can be ended in every order. Each of
them has the same standings in all orders, and the tables are the same but for the order of the
rankings. So it is when different ends are undone one after another. -/
theorem order_of_ends_immaterial {steps : List Step} (hsteps : ∀ x ∈ steps, x.isProgram = true)
    {events : List EventId} (hevents : events.Nodup) :
    let c := (Session.start.after steps).club
    (∀ answers c', (events.mapM Service.endEvent).Yields c answers c' →
      ∃ standings : EventId → Standings, answers = events.map standings ∧
        ∀ order : List EventId, order.Perm events →
          ∃ c'', (order.mapM Service.endEvent).Yields c (order.map standings) c'' ∧
            c'.Alike c'') ∧
    ∀ answers c', (events.mapM Service.undoEndEvent).Yields c answers c' →
      ∃ debits : EventId → List Award, answers = events.map debits ∧
        ∀ order : List EventId, order.Perm events →
          ∃ c'', (order.mapM Service.undoEndEvent).Yields c (order.map debits) c'' ∧
            c'.Alike c'' := by
  intro c
  have hc : c.Consistent := Session.consistent_after hsteps
  exact ⟨fun _ _ h => posts_endEvent.mapM_order hevents hc h,
    fun _ _ h => posts_undoEndEvent.mapM_order hevents hc h⟩

/-! ## Three events

The first two events have the same single entrant and the third one has another. When the third is
ended first, its entrant has the first row of the rankings.
-/

namespace Trio

open Night (uuid time)

def steps : List Step :=
  (Night.steps (time 50)).take 4 ++
    [.call ⟨uuid 5, time 5⟩ (.service (.createEvent (Night.event (time 60)).toEventPlan)),
      .call ⟨uuid 6, time 6⟩ (.service (.createEvent (Night.event (time 70)).toEventPlan)),
      .call ⟨uuid 7, time 7⟩ (.service (.enterEvent ⟨uuid 4⟩ ⟨uuid 2⟩)),
      .call ⟨uuid 8, time 8⟩ (.service (.enterEvent ⟨uuid 5⟩ ⟨uuid 2⟩)),
      .call ⟨uuid 9, time 9⟩ (.service (.enterEvent ⟨uuid 6⟩ ⟨uuid 3⟩))]

def ends : List Step :=
  [.call ⟨uuid 10, time 80⟩ (.service (.endEvent ⟨uuid 4⟩)),
    .call ⟨uuid 11, time 80⟩ (.service (.endEvent ⟨uuid 5⟩)),
    .call ⟨uuid 12, time 80⟩ (.service (.endEvent ⟨uuid 6⟩))]

def events : List EventId := [⟨uuid 4⟩, ⟨uuid 5⟩, ⟨uuid 6⟩]

def awards : List Award :=
  [⟨⟨uuid 7⟩, ⟨uuid 2⟩, 1, 10⟩, ⟨⟨uuid 8⟩, ⟨uuid 2⟩, 1, 10⟩, ⟨⟨uuid 9⟩, ⟨uuid 3⟩, 1, 10⟩]

def standings : List Standings := List.zipWith (fun event a => ⟨event, 1, [a]⟩) events awards

def leftBy {α : Type} (w : Work ServiceError α) (c : Club) : Club := (w.run ⟨c, none⟩).2.club

theorem ended : ∃ c', (events.mapM Service.endEvent).Yields (Session.start.after steps).club
    standings c' ∧ c'.rankings = [⟨⟨uuid 2⟩, 20, 0⟩, ⟨⟨uuid 3⟩, 10, 0⟩] := by
  refine ⟨leftBy (events.mapM Service.endEvent) (Session.start.after steps).club, ?_⟩
  unfold Yields
  decide +kernel

theorem undone : ∃ c', (events.mapM Service.undoEndEvent).Yields
    (Session.start.after (steps ++ ends)).club (awards.map fun a => [a.debit]) c' ∧
      c'.rankings = [⟨⟨uuid 2⟩, 0, 0⟩, ⟨⟨uuid 3⟩, 0, 0⟩] := by
  refine ⟨leftBy (events.mapM Service.undoEndEvent) (Session.start.after (steps ++ ends)).club, ?_⟩
  unfold Yields
  decide +kernel

end Trio

theorem trio_in_reverse :
    (∃ c', (Trio.events.reverse.mapM Service.endEvent).Yields
        (Session.start.after Trio.steps).club Trio.standings.reverse c' ∧
      c'.rankings.Perm [⟨⟨Night.uuid 2⟩, 20, 0⟩, ⟨⟨Night.uuid 3⟩, 10, 0⟩]) ∧
    ∃ c', (Trio.events.reverse.mapM Service.undoEndEvent).Yields
        (Session.start.after (Trio.steps ++ Trio.ends)).club
        (Trio.awards.map fun a => [a.debit]).reverse c' ∧
      c'.rankings.Perm [⟨⟨Night.uuid 2⟩, 0, 0⟩, ⟨⟨Night.uuid 3⟩, 0, 0⟩] := by
  have hevents : Trio.events.Nodup := by decide +kernel
  have horder := Trio.events.reverse_perm
  constructor
  · obtain ⟨hends, -⟩ := order_of_ends_immaterial
      (by decide +kernel : ∀ x ∈ Trio.steps, x.isProgram = true) hevents
    obtain ⟨c', hended, hrankings⟩ := Trio.ended
    obtain ⟨standings, heq, horders⟩ := hends _ _ hended
    obtain ⟨c'', hyields, halike⟩ := horders _ horder
    rw [List.map_reverse, ← heq] at hyields
    exact ⟨c'', hyields, hrankings ▸ halike.rankings⟩
  · obtain ⟨-, hundoes⟩ := order_of_ends_immaterial
      (by decide +kernel : ∀ x ∈ Trio.steps ++ Trio.ends, x.isProgram = true) hevents
    obtain ⟨c', hundone, hrankings⟩ := Trio.undone
    obtain ⟨debits, heq, horders⟩ := hundoes _ _ hundone
    obtain ⟨c'', hyields, halike⟩ := horders _ horder
    rw [List.map_reverse, ← heq] at hyields
    exact ⟨c'', hyields, hrankings ▸ halike.rankings⟩

end CardClub
