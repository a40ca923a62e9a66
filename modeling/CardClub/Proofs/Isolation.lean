import CardClub.Proofs.Freeze
import CardClub.Proofs.FrozenField
import CardClub.Proofs.Reading

/-!
# Semesters do not see each other

Nothing in the tables ties the membership of a participant to the semester of its event; the test at
the entry does, and no call changes what it has tested. So the points of an event go to members of
its semester, and a call on an event leaves alone what is read of other semesters.
-/

namespace CardClub

open Club

/-- The event that a call bears on, or the event of the participant that it bears on. -/
def ServiceCall.event? (c : Club) : ServiceCall → Option EventId
  | updateEvent event _ | enterEvent event _ | endEvent event | undoEndEvent event
  | newRebuy event => some event
  | signOut id | signIn id => (c.participant? id).map (·.eventId)
  | _ => none

namespace Club

variable {c c' : Club} {e row : Event} {awards : List Award} {rankings : List Ranking}
  {deltas : List (MembershipId × Int)} {semester : SemesterId}

/-- All participants are members of the semester of their event. -/
def Aligned (c : Club) : Prop :=
  ∀ p ∈ c.participants, ∀ m ∈ c.memberships, ∀ e ∈ c.events, m.id = p.membershipId →
    e.id = p.eventId → m.semesterId = e.semesterId

/-- Tables whose participants, memberships and events refer to each other as before stay aligned. -/
theorem Aligned.mono (h : c.Aligned)
    (hp : ∀ p' ∈ c'.participants, ∃ p ∈ c.participants, p.membershipId = p'.membershipId ∧
      p.eventId = p'.eventId)
    (hm : ∀ m ∈ c'.memberships, m ∈ c.memberships)
    (he : ∀ e' ∈ c'.events, ∃ e ∈ c.events, e.id = e'.id ∧ e.semesterId = e'.semesterId) :
    c'.Aligned := by
  intro p' hp' m hm' e' he' hmembership hevent
  obtain ⟨p, hp, hpm, hpe⟩ := hp p' hp'
  obtain ⟨e, he, hid, hsemester⟩ := he e' he'
  rw [← hsemester]
  exact h p hp m (hm m hm') e he (hmembership.trans hpm.symm) (hid.trans (hevent.trans hpe.symm))

theorem Aligned.replaceParticipants (h : c.Aligned) {test : Participant → Bool}
    {change : Participant → Participant} (hm : ∀ p, (change p).membershipId = p.membershipId)
    (he : ∀ p, (change p).eventId = p.eventId) :
    { c with participants := replaceWhere test change c.participants }.Aligned := by
  apply h.mono
  · intro p' hp'
    obtain ⟨p, hp, rfl⟩ := mem_replaceWhere.mp hp'
    refine ⟨p, hp, ?_⟩
    split
    · exact ⟨(hm p).symm, (he p).symm⟩
    · exact ⟨rfl, rfl⟩
  · exact fun m hm => hm
  · exact fun e he => ⟨e, he, rfl, rfl⟩

theorem Aligned.putEvent (h : c.Aligned) (he : e ∈ c.events) (hid : row.id = e.id)
    (hsemester : row.semesterId = e.semesterId) : (Statement.putEvent c row).Aligned := by
  apply h.mono
  · exact fun p hp => ⟨p, hp, rfl, rfl⟩
  · exact fun m hm => hm
  · intro e' he'
    rcases mem_putEvent he' with rfl | ⟨he', -⟩
    · exact ⟨e, he, hid.symm, hsemester.symm⟩
    · exact ⟨e', he', rfl, rfl⟩

end Club

variable {c c' : Club} {stamp : Stamp} {call : ServiceCall} {semester : SemesterId}

/-- Calls that succeed keep participants in the semester of their event. -/
theorem ServiceCall.Effect.aligned (h : call.Effect stamp c c') (hc : c.Consistent)
    (haligned : c.Aligned) : c'.Aligned := by
  cases h with
  | looked | semesterOpened | adjusted | adjustedAll => exact haligned
  | joined hrow hst =>
      obtain ⟨hnew, -, -, rfl, -⟩ := Statement.insertMembership_ok hst
      intro p hp m hm e he hmembership
      rcases List.mem_append.mp hm with hm | hm
      · exact haligned p hp m hm e he hmembership
      · -- nobody has entered with a membership that is new
        obtain rfl := List.mem_singleton.mp hm
        exact absurd (hmembership ▸ hc.participant_membership p hp) hnew
  | announced hfault hst =>
      obtain ⟨hnew, -, -, rfl, -⟩ := Statement.insertEvent_ok hst
      intro p hp m hm e he hmembership hevent
      rcases List.mem_append.mp he with he | he
      · exact haligned p hp m hm e he hmembership hevent
      · -- nobody has entered an event that is new
        obtain rfl := List.mem_singleton.mp he
        have hkey : (⟨stamp.uuid⟩ : EventId) = p.eventId := hevent
        exact absurd (hkey ▸ hc.participant_event p hp) hnew
  | entered he hopen hm hsemester hst =>
      obtain ⟨-, -, -, -, rfl, -⟩ := Statement.insertParticipant_ok hst
      obtain ⟨he₀, rfl⟩ := Statement.event?_eq_some he
      obtain ⟨hm₀, rfl⟩ := mem_of_find?_key hm
      intro p hp m hm e he hmembership hevent
      rcases List.mem_append.mp hp with hp | hp
      · exact haligned p hp m hm e he hmembership hevent
      · obtain rfl := List.mem_singleton.mp hp
        obtain rfl := List.inj_on_of_nodup_map hc.membership_ids hm hm₀ hmembership
        obtain rfl := List.inj_on_of_nodup_map hc.event_ids he he₀ hevent
        exact hsemester
  | signedOut | signedIn => exact haligned.replaceParticipants (fun _ => rfl) fun _ => rfl
  | amended hfault he =>
      exact haligned.putEvent (Statement.event?_eq_some he).1 rfl rfl
  | rebought he =>
      exact haligned.putEvent (Statement.event?_eq_some he).1 rfl rfl
  | ended hyields =>
      obtain ⟨e, awards, deltas, rankings, he, -, -, -, -, -, -, rfl⟩ :=
        (Service.endEvent_yields hc).mp hyields
      have hput : (Statement.putEvent c { e with state := .ended }).Aligned :=
        haligned.putEvent (Statement.event?_eq_some he).1 rfl rfl
      exact hput.replaceParticipants (fun _ => rfl) fun _ => rfl
  | endUndone hyields =>
      obtain ⟨e, deltas, rankings, he, -, -, -, -, rfl⟩ :=
        (Service.undoEndEvent_yields hc).mp hyields
      have hput : (Statement.putEvent c { e with state := .started }).Aligned :=
        haligned.putEvent (Statement.event?_eq_some he).1 rfl rfl
      exact hput

theorem Session.aligned_after {steps : List Step} (hsteps : ∀ x ∈ steps, x.isService = true) :
    (start.after steps).club.Aligned := by
  apply service_log (P := fun _ c => c.Aligned) ?_ ?_ ?_ hsteps
  · exact fun p hp => absurd hp List.not_mem_nil
  · exact fun haligned _ => haligned
  · exact fun hc haligned hyields => (ServiceCall.effect hyields).aligned hc haligned

/-! ## What a call on an event leaves alone -/

namespace Club

variable {e row : Event} {awards : List Award} {rankings : List Ranking}
  {deltas : List (MembershipId × Int)}

/-- Two states of the tables look the same from a semester. -/
structure SameFrom (c c' : Club) (semester : SemesterId) : Prop where
  row : c'.semester? semester = c.semester? semester
  schedule : c'.eventsOf semester = c.eventsOf semester
  event : ∀ t ∈ c.events, t.semesterId = semester → c'.event? t.id = c.event? t.id
  participants : ∀ t ∈ c.events, t.semesterId = semester →
    c'.participantsOf t.id = c.participantsOf t.id
  rankings : c'.rankingsOf semester = c.rankingsOf semester

theorem SameFrom.refl : c.SameFrom c semester :=
  ⟨rfl, rfl, fun _ _ _ => rfl, fun _ _ _ => rfl, rfl⟩

/-- A change of an event, its field, its semester and the rankings of its semester. -/
theorem SameFrom.of_putEvent (hc : c.Consistent) (he : e ∈ c.events)
    (hother : semester ≠ e.semesterId) (hevents : c'.events = (Statement.putEvent c row).events)
    (hid : row.id = e.id) (hsemester : row.semesterId = e.semesterId)
    (hrow : c'.semester? semester = c.semester? semester)
    (hfield : ∀ event, event ≠ e.id → c'.field event = c.field event)
    (hrankings : c'.rankingsOf semester = c.rankingsOf semester) : c.SameFrom c' semester := by
  have hne : ∀ t ∈ c.events, t.semesterId = semester → t.id ≠ e.id := by
    rintro t ht rfl heq
    obtain rfl := List.inj_on_of_nodup_map hc.event_ids ht he heq
    exact hother rfl
  constructor
  · exact hrow
  · -- the event that changes is in the list neither before nor after
    have hsame :
        (Statement.putEvent c row).events.filter (fun t => decide (t.semesterId = semester)) =
          c.events.filter fun t => decide (t.semesterId = semester) := by
      rw [Statement.putEvent, filter_replaceWhere]
      · apply replaceWhere_eq_self
        intro t ht hkey
        obtain ⟨ht, hsem⟩ := List.mem_filter.mp ht
        exact absurd ((of_decide_eq_true hkey).trans hid) (hne t ht (of_decide_eq_true hsem))
      · intro t ht hkey
        obtain rfl := List.inj_on_of_nodup_map hc.event_ids ht he
          ((of_decide_eq_true hkey).trans hid)
        rw [hsemester]
    rw [eventsOf, eventsOf, hevents, hsame]
  · intro t ht hsem
    rw [event?, hevents]
    exact find?_replaceWhere (hid ▸ (hne t ht hsem).symm) fun _ _ => rfl
  · intro t ht hsem
    rw [participantsOf, participantsOf, hfield t.id (hne t ht hsem)]
  · exact hrankings

def inSemester (c : Club) (semester : SemesterId) (membership : MembershipId) : Bool :=
  c.memberships.any fun m => decide (m.id = membership) && decide (m.semesterId = semester)

theorem filter_creditAll {keep : MembershipId → Bool} {rankings rankings' : List Ranking}
    (h : deltas.foldlM Statement.creditRanking rankings = .ok rankings')
    (hnot : ∀ d ∈ deltas, keep d.1 = false) :
    rankings'.filter (fun r => keep r.membershipId) =
      rankings.filter fun r => keep r.membershipId := by
  induction deltas generalizing rankings with
  | nil =>
      obtain rfl := Except.ok.inj h
      rfl
  | cons d deltas ih =>
      obtain ⟨-, hrest⟩ := creditAll_cons_ok.mp h
      obtain ⟨hd, hnot⟩ := List.forall_mem_cons.mp hnot
      rw [ih hrest hnot, credited]
      split
      · rw [filter_replaceWhere]
        · apply replaceWhere_eq_self
          intro r hr hkey
          have hkeep := (List.mem_filter.mp hr).2
          rw [of_decide_eq_true hkey, hd] at hkeep
          cases hkeep
        · exact fun _ _ _ => rfl
      · rw [List.filter_append, List.filter_cons_of_neg (by simp [hd]), List.filter_nil,
          List.append_nil]

theorem rankingsOf_creditAll
    (h : deltas.foldlM Statement.creditRanking c.rankings = .ok rankings)
    (hother : ∀ m ∈ c.memberships, m.id ∈ deltas.map (·.1) → m.semesterId ≠ semester) :
    { c with rankings }.rankingsOf semester = c.rankingsOf semester := by
  change rankings.filter (fun r => c.inSemester semester r.membershipId) =
    c.rankings.filter fun r => c.inSemester semester r.membershipId
  apply filter_creditAll h
  intro d hd
  simp only [inSemester, List.any_eq_false, Bool.and_eq_true, decide_eq_true_eq, not_and]
  exact fun m hm hid => hother m hm (hid ▸ List.mem_map_of_mem hd)

theorem Aligned.deltas_semester (h : c.Aligned) (he : e ∈ c.events)
    (hnet : netDeltas awards = .ok deltas)
    (hawards : ∀ a ∈ awards, a.membershipId ∈ (c.field e.id).map (·.membershipId)) :
    ∀ m ∈ c.memberships, m.id ∈ deltas.map (·.1) → m.semesterId = e.semesterId := by
  intro m hm hkey
  obtain ⟨a, ha, hid⟩ := List.mem_map.mp (((netDeltas_ok hnet).2.1 m.id).mp hkey)
  obtain ⟨p, hp, hpid⟩ := List.mem_map.mp (hawards a ha)
  obtain ⟨hp, hevent⟩ := mem_field.mp hp
  exact h p hp m hm e he (hid.symm.trans hpid.symm) hevent.symm

theorem SameFrom.of_participant (hc : c.Consistent) (he : e ∈ c.events)
    (hother : semester ≠ e.semesterId) {p : Participant} (hp : p ∈ c.participants)
    (hevent : p.eventId = e.id) {change : Participant → Participant}
    (hchange : ∀ p, (change p).eventId = p.eventId) :
    c.SameFrom { c with
      participants := replaceWhere (fun x => decide (x.id = p.id)) change c.participants }
      semester := by
  refine .of_putEvent hc he hother (hc.putEvent_self he).symm rfl rfl rfl (fun event hne => ?_) rfl
  refine field_replaceWhere (fun q hq hid heq => ?_) hchange
  obtain rfl := List.inj_on_of_nodup_map hc.participant_ids hq hp (of_decide_eq_true hid)
  exact hne (heq.symm.trans hevent)

end Club

/-- A call on an event that succeeds leaves the tables as they were seen from other semesters. -/
theorem ServiceCall.Effect.sameFrom (h : call.Effect stamp c c') (hc : c.Consistent)
    (haligned : c.Aligned) {e : Event} (hmem : e ∈ c.events) (hcall : call.event? c = some e.id)
    (hother : semester ≠ e.semesterId) : c.SameFrom c' semester := by
  have hself : ∀ {e₁}, c.event? e.id = some e₁ → e₁ = e := fun he₁ =>
    Option.some.inj (he₁.symm.trans (hc.event?_of_mem hmem))
  cases h with
  | looked => exact .refl
  | semesterOpened | joined | announced | adjusted | adjustedAll => cases hcall
  | amended hfault he =>
      obtain rfl := Option.some.inj hcall
      obtain rfl := hself he
      exact .of_putEvent hc hmem hother rfl rfl rfl rfl (fun _ _ => rfl) rfl
  | @entered event membership e₁ m p he hopen hm hsemester hst =>
      obtain rfl := Option.some.inj hcall
      obtain ⟨-, -, -, -, rfl, -⟩ := Statement.insertParticipant_ok hst
      refine .of_putEvent hc hmem hother (hc.putEvent_self hmem).symm rfl rfl rfl ?_ rfl
      intro event hne
      rw [field, field, List.filter_append, List.filter_cons_of_neg (by simpa using hne.symm)]
      exact List.append_nil _
  | @signedOut id p e₁ hp =>
      obtain ⟨hp', rfl⟩ := mem_of_find?_key hp
      rw [ServiceCall.event?, hp] at hcall
      exact .of_participant hc hmem hother hp' (Option.some.inj hcall) fun _ => rfl
  | @signedIn id p e₁ hp =>
      obtain ⟨hp', rfl⟩ := mem_of_find?_key hp
      rw [ServiceCall.event?, hp] at hcall
      exact .of_participant hc hmem hother hp' (Option.some.inj hcall) fun _ => rfl
  | ended hyields =>
      obtain rfl := Option.some.inj hcall
      obtain ⟨e₁, awards, deltas, rankings, he, -, hplan, hnet, hfold, -, -, rfl⟩ :=
        (Service.endEvent_yields hc).mp hyields
      obtain rfl := hself he
      obtain ⟨-, hseats, -⟩ := planAwards_ok.mp hplan
      have hfield : ∀ a ∈ awards, a.membershipId ∈ (c.field e₁.id).map (·.membershipId) :=
        fun a ha => (Award.memberships_perm hseats).mem_iff.mp (List.mem_map_of_mem ha)
      have hown := haligned.deltas_semester hmem hnet hfield
      refine .of_putEvent hc hmem hother rfl rfl rfl rfl (fun _ => field_closed_of_ne) ?_
      exact rankingsOf_creditAll hfold fun m hm hkey => (hown m hm hkey).trans_ne hother.symm
  | @endUndone event debits c' hyields =>
      obtain rfl := Option.some.inj hcall
      obtain ⟨e₁, deltas, rankings, he, -, hplan, hnet, hfold, rfl⟩ :=
        (Service.undoEndEvent_yields hc).mp hyields
      obtain rfl := hself he
      obtain ⟨-, hseats, -⟩ := planReversal_ok.mp hplan
      have hfield : ∀ a ∈ debits, a.membershipId ∈ (c.field e₁.id).map (·.membershipId) := by
        intro a ha
        have hkey := List.mem_map_of_mem (f := Award.membershipId) ha
        rw [Award.memberships_of_seats hseats] at hkey
        obtain ⟨p, hp, hid⟩ := List.mem_map.mp hkey
        exact List.mem_map.mpr ⟨p, mem_participantsOf.mp (List.mem_of_mem_filter hp), hid⟩
      have hown := haligned.deltas_semester hmem hnet hfield
      refine .of_putEvent hc hmem hother rfl rfl rfl rfl (fun _ _ => rfl) ?_
      exact rankingsOf_creditAll hfold fun m hm hkey => (hown m hm hkey).trans_ne hother.symm
  | rebought he =>
      obtain rfl := Option.some.inj hcall
      obtain rfl := hself he
      refine .of_putEvent hc hmem hother rfl rfl rfl ?_ (fun _ _ => rfl) rfl
      exact find?_replaceWhere hother.symm fun _ hid => hid

/-! ## What is read -/

/-- Reading a semester, its events, their participants and its rankings gives the same in two
sessions. -/
structure Session.SameReads (s s' : Session) (semester : SemesterId) : Prop where
  terms : ((Service.getSemester semester).run s').1 = ((Service.getSemester semester).run s).1
  events : ((Service.listEvents semester).run s').1 = ((Service.listEvents semester).run s).1
  participants : ∀ t ∈ s.club.events, t.semesterId = semester →
    ((Service.listParticipants t.id).run s').1 = ((Service.listParticipants t.id).run s).1
  rankings : ((Service.listRankings semester).run s').1 = ((Service.listRankings semester).run s).1

theorem Club.SameFrom.sameReads {s s' : Session} (h : s.club.SameFrom s'.club semester) :
    s.SameReads s' semester := by
  constructor
  · rw [Service.getSemester_run, Service.getSemester_run, h.row]
  · rw [Service.listEvents_run, Service.listEvents_run, Service.getSemester_run,
      Service.getSemester_run, h.row, h.schedule]
  · intro t ht hsemester
    rw [Service.listParticipants_run, Service.listParticipants_run, Service.getEvent_run,
      Service.getEvent_run, h.event t ht hsemester, h.participants t ht hsemester]
  · rw [Service.listRankings_run, Service.listRankings_run, h.rankings]

/-- Everyone in an event is a member of its semester, and calls on an event, whether they succeed or
not, change nothing that is read of another semester and its events. -/
theorem semesters_isolated {steps : List Step} (hsteps : ∀ x ∈ steps, x.isService = true) :
    let s := Session.start.after steps
    (∀ p ∈ s.club.participants, ∃ m e, s.club.membership? p.membershipId = some m ∧
      s.club.event? p.eventId = some e ∧ m.semesterId = e.semesterId) ∧
    ∀ stamp call, ∀ e ∈ s.club.events, ServiceCall.event? s.club call = some e.id →
      ∀ semester, semester ≠ e.semesterId →
        s.SameReads (s.step (.call stamp (.service call))) semester := by
  intro s
  have hc : s.club.Consistent :=
    Session.consistent_after fun x hx => Step.isProgram_of_isService (hsteps x hx)
  have haligned : s.club.Aligned := Session.aligned_after hsteps
  constructor
  · intro p hp
    obtain ⟨m, hm, hmid⟩ := List.mem_map.mp (hc.participant_membership p hp)
    obtain ⟨e, he, heid⟩ := List.mem_map.mp (hc.participant_event p hp)
    refine ⟨m, e, ?_, ?_, haligned p hp m hm e he hmid heid⟩
    · rw [← hmid]
      exact find?_key hc.membership_ids hm
    · rw [← heid]
      exact hc.event?_of_mem he
  · intro stamp call e he hcall semester hother
    apply SameFrom.sameReads
    rcases Session.step_service (s := s) (x := .call stamp (.service call)) rfl with
      ⟨hclub, -⟩ | ⟨_, _, reply, heq, hyields, -⟩
    · rw [hclub]
      exact .refl
    · obtain ⟨rfl, hservice⟩ := Step.call.inj heq
      obtain rfl := Call.service.inj hservice
      exact (ServiceCall.effect hyields).sameFrom hc haligned he hcall hother

/-! ## Two seasons side by side

The only member of another semester has points and a seat in an event there when the first event is
ended.
-/

namespace SideBySide

open Night (uuid time)

def steps : List Step :=
  SharedLead.steps ++
    [.call ⟨uuid 12, time 85⟩ (.service (.createEvent
        { (Night.event (time 60)).toEventPlan with semesterId := ⟨uuid 9⟩ })),
      .call ⟨uuid 13, time 86⟩ (.service (.enterEvent ⟨uuid 12⟩ ⟨uuid 10⟩))]

def ending : Step := .call ⟨uuid 14, time 90⟩ (.service (.endEvent ⟨uuid 4⟩))

end SideBySide

theorem side_by_side_isolated :
    let s := Session.start.after SideBySide.steps
    s.club.participants.map (·.eventId) = [⟨Night.uuid 4⟩, ⟨Night.uuid 4⟩, ⟨Night.uuid 12⟩] ∧
      (∀ p ∈ s.club.participants, ∃ m e, s.club.membership? p.membershipId = some m ∧
        s.club.event? p.eventId = some e ∧ m.semesterId = e.semesterId) ∧
      s.SameReads (s.step SideBySide.ending) ⟨Night.uuid 9⟩ := by
  intro s
  obtain ⟨haligned, hreads⟩ := semesters_isolated
    (by decide +kernel : ∀ x ∈ SideBySide.steps, x.isService = true)
  have he : Night.event (Night.time 50) ∈ s.club.events := by decide +kernel
  exact ⟨by decide +kernel, haligned, hreads _ _ _ he rfl _ (by decide)⟩

end CardClub
