import CardClub.Proofs.Freeze
import CardClub.Proofs.History

/-!
# Events that have ended

While an event has ended, all of its field are signed out, the placements go from 1 on in the order
of the listing, each placement has its award, and each member of the field has a ranking. Ending an
event establishes this, and no later call breaks it before the end is undone.
-/

namespace CardClub

/-- The field of an event as it is while the event has ended. -/
structure Club.Settled (c : Club) (e : Event) : Prop where
  signedOut : ∀ p ∈ c.field e.id, p.signedOutAt.isSome = true
  placements : (c.participantsOf e.id).map (·.placement) = List.range' 1 (c.field e.id).length
  awarded : ∀ p ∈ c.field e.id,
    ∃ n, awardPoints (c.field e.id).length p.placement e.multiplier = .ok n
  ranked : ∀ p ∈ c.field e.id, p.membershipId ∈ c.rankings.map (·.membershipId)

namespace Club

variable {c c' : Club} {e row : Event} {awards : List Award} {deltas : List (MembershipId × Int)}
  {rankings : List Ranking}

/-- What settles an event is its field, the value of its multiplier and who has a ranking. -/
theorem Settled.congr (h : c.Settled e) (hid : row.id = e.id)
    (hfield : c'.field e.id = c.field e.id)
    (hmultiplier : e.multiplier.sameValue row.multiplier = true)
    (hranked : ∀ m ∈ c.rankings.map (·.membershipId), m ∈ c'.rankings.map (·.membershipId)) :
    c'.Settled row := by
  have hlisting : c'.participantsOf e.id = c.participantsOf e.id := by
    rw [participantsOf, participantsOf, hfield]
  constructor
  · rw [hid, hfield]
    exact h.signedOut
  · rw [hid, hfield, hlisting]
    exact h.placements
  · rw [hid, hfield]
    intro p hp
    obtain ⟨n, hn⟩ := h.awarded p hp
    exact ⟨n, awardPoints_congr hmultiplier hn⟩
  · rw [hid, hfield]
    exact fun p hp => hranked _ (h.ranked p hp)

theorem Settled.placement_pos (h : c.Settled e) : ∀ p ∈ c.participantsOf e.id, 0 < p.placement := by
  intro p hp
  have hmem : p.placement ∈ List.range' 1 (c.field e.id).length :=
    h.placements ▸ List.mem_map_of_mem hp
  exact (List.mem_range'_1.mp hmem).1

/-- In a settled field, the better placed of two is the one that the other is not listed before. -/
theorem Settled.placement_lt_iff (h : c.Settled e) (hc : c.Consistent) {p q : Participant}
    (hp : p ∈ c.field e.id) (hq : q ∈ c.field e.id) :
    p.placement < q.placement ↔ listedBefore q p = false := by
  have hplaces := h.placements
  rw [← length_participantsOf] at hplaces
  exact CardClub.placement_lt_iff (c.participantsOf_pairwise e.id) (hc.participantsOf_ids e.id)
    hplaces
    (mem_participantsOf.mpr hp) (mem_participantsOf.mpr hq)

theorem settled_closed (hc : c.Consistent)
    (hplan : planAwards (c.finishers e) e.multiplier = .ok awards)
    (hnet : netDeltas awards = .ok deltas)
    (hfold : deltas.foldlM Statement.creditRanking c.rankings = .ok rankings) :
    (c.closed e awards rankings).Settled { e with state := .ended } := by
  obtain ⟨-, hseats, hplaces, hpoints⟩ := planAwards_ok.mp hplan
  have hlength : ((c.closed e awards rankings).field e.id).length = (c.finishers e).length := by
    rw [field_closed, List.length_map, length_finishers]
  have hresult {p : Participant} (hp : p ∈ (c.closed e awards rankings).field e.id) :
      ∃ a ∈ awards, a.membershipId = p.membershipId ∧ a.placement = p.placement := by
    have hmem : (p.membershipId, p.placement) ∈ awards.map fun a =>
      (a.membershipId, a.placement) := by
      rw [← results_closed hc rankings hseats]
      exact List.mem_map_of_mem (mem_participantsOf.mpr hp)
    obtain ⟨a, ha, heq⟩ := List.mem_map.mp hmem
    exact ⟨a, ha, Prod.mk.inj heq⟩
  constructor
  · intro p hp
    rw [field_closed] at hp
    obtain ⟨q, -, rfl⟩ := List.mem_map.mp hp
    rfl
  · change ((c.closed e awards rankings).participantsOf e.id).map _ = _
    rw [participantsOf_closed, placements_placedBy (hc.finishers_ids e) hseats, hplaces, hlength]
  · intro p hp
    obtain ⟨a, ha, -, hplace⟩ := hresult hp
    exact ⟨a.points, by rw [← hplace, hlength]; exact hpoints a ha⟩
  · intro p hp
    obtain ⟨a, ha, hm, -⟩ := hresult hp
    have hkey : p.membershipId ∈ deltas.map (·.1) :=
      ((netDeltas_ok hnet).2.1 _).mpr (hm ▸ List.mem_map_of_mem ha)
    exact (mem_keys_creditAll hfold).mpr (.inr hkey)

/-- Every event that has ended is settled. -/
def AllSettled (c : Club) : Prop := ∀ e ∈ c.events, e.state.isEnded = true → c.Settled e

theorem mem_putEvent {x : Event} (h : x ∈ (Statement.putEvent c row).events) :
    x = row ∨ x ∈ c.events ∧ x.id ≠ row.id := by
  obtain ⟨y, hy, rfl⟩ := mem_replaceWhere.mp h
  split
  · exact .inl rfl
  · next hne => exact .inr ⟨hy, of_decide_eq_false (by simpa using hne)⟩

theorem Touched.allSettled (h : c.Touched c') (hsettled : c.AllSettled)
    (hranked : ∀ m ∈ c.rankings.map (·.membershipId), m ∈ c'.rankings.map (·.membershipId)) :
    c'.AllSettled := by
  intro x hx hended
  cases h with
  | untouched hevents hparticipants =>
      rw [hevents] at hx
      exact (hsettled x hx hended).congr rfl (field_congr hparticipants _)
        (Decimal.sameValue_self _) hranked
  | announced row hopen hevents hparticipants =>
      rw [hevents] at hx
      rcases List.mem_append.mp hx with hx | hx
      · exact (hsettled x hx hended).congr rfl (field_congr hparticipants _)
          (Decimal.sameValue_self _)
          hranked
      · rw [List.mem_singleton.mp hx, hopen] at hended
        cases hended
  | changed e row he hid hstate hevents hothers hfrozen =>
      rw [hevents] at hx
      rcases mem_putEvent hx with rfl | ⟨hx, hne⟩
      · rw [hstate] at hended
        obtain ⟨hfield, hmultiplier⟩ := hfrozen hended
        exact (hsettled e he hended).congr hid hfield hmultiplier hranked
      · exact (hsettled x hx hended).congr rfl (hothers _ (hid ▸ hne)) (Decimal.sameValue_self _)
          hranked

end Club

open Club

variable {c c' : Club} {stamp : Stamp} {call : ServiceCall}

theorem ServiceCall.Effect.allSettled (h : call.Effect stamp c c') (hc : c.Consistent)
    (hsettled : c.AllSettled) : c'.AllSettled := by
  rcases h.closing with hcall | ⟨event, answer, -, hyields⟩ | ⟨event, debits, -, hyields⟩
  · exact (h.touched hc hcall).allSettled hsettled
      fun m hm => (mem_keys_creditAll (h.credits hcall)).mpr (.inl hm)
  · obtain ⟨e, awards, deltas, rankings, he, hopen, hplan, hnet, hfold, -, -, rfl⟩ :=
      (Service.endEvent_yields hc).mp hyields
    intro x hx hended
    rcases mem_putEvent hx with rfl | ⟨hx, hne⟩
    · exact settled_closed hc hplan hnet hfold
    · exact (hsettled x hx hended).congr rfl (field_closed_of_ne hne) (Decimal.sameValue_self _)
        fun m hm => (mem_keys_creditAll hfold).mpr (.inl hm)
  · obtain ⟨e, deltas, rankings, he, -, -, -, hfold, rfl⟩ :=
      (Service.undoEndEvent_yields hc).mp hyields
    intro x hx hended
    rcases mem_putEvent hx with rfl | ⟨hx, hne⟩
    · cases hended
    · exact (hsettled x hx hended).congr rfl rfl (Decimal.sameValue_self _)
        fun m hm => (mem_keys_creditAll hfold).mpr (.inl hm)

namespace Session

variable {steps : List Step}

/-- Whatever has ended is settled in every state that services can reach. -/
theorem allSettled_after (hsteps : ∀ x ∈ steps, x.isService = true) :
    (start.after steps).club.AllSettled := by
  apply service_log (P := fun _ c => c.AllSettled) ?_ ?_ ?_ hsteps
  · exact fun e he => absurd he List.not_mem_nil
  · exact fun hsettled _ => hsettled
  · exact fun hc hsettled hyields => (ServiceCall.effect hyields).allSettled hc hsettled

end Session

/-! ## A small night

Two members enter an event. The first one signs out, the second one stays until the event is ended.
-/

namespace Night

def uuid (n : Nat) : Uuid := ⟨n % uuidLimit, Nat.mod_lt n (by decide)⟩

def time (n : Nat) : Instant := (Instant.ofParts? n 0).getD .epoch

def terms : SemesterTerms := ⟨"Autumn", time 0, time 100, .zero, .zero, .zero, .zero⟩

def event (startDate : Instant) : Event where
  semesterId := ⟨uuid 1⟩
  structureId := ⟨uuid 90⟩
  name := "Opening"
  location := none
  startDate := startDate
  multiplier := .one
  id := ⟨uuid 4⟩
  state := .started
  rebuys := 0
  createdAt := time 4

def steps (startDate : Instant) : List Step :=
  [.call ⟨uuid 1, time 1⟩ (.service (.createSemester terms)),
    .call ⟨uuid 2, time 2⟩ (.service (.createMembership ⟨uuid 1⟩ ⟨uuid 91⟩ false false)),
    .call ⟨uuid 3, time 3⟩ (.service (.createMembership ⟨uuid 1⟩ ⟨uuid 92⟩ false false)),
    .call ⟨uuid 4, time 4⟩ (.service (.createEvent (event startDate).toEventPlan)),
    .call ⟨uuid 5, time 5⟩ (.service (.enterEvent ⟨uuid 4⟩ ⟨uuid 2⟩)),
    .call ⟨uuid 6, time 6⟩ (.service (.enterEvent ⟨uuid 4⟩ ⟨uuid 3⟩)),
    .call ⟨uuid 7, time 70⟩ (.service (.signOut ⟨uuid 5⟩))]

def club (startDate : Instant) : Club where
  semesters := [⟨terms, ⟨uuid 1⟩, .ofDecimal .zero, time 1⟩]
  memberships := [⟨⟨uuid 2⟩, ⟨uuid 1⟩, ⟨uuid 91⟩, false, false, time 2⟩,
    ⟨⟨uuid 3⟩, ⟨uuid 1⟩, ⟨uuid 92⟩, false, false, time 3⟩]
  events := [event startDate]
  participants := [⟨⟨uuid 5⟩, ⟨uuid 2⟩, ⟨uuid 4⟩, 0, some (time 70), time 5⟩,
    ⟨⟨uuid 6⟩, ⟨uuid 3⟩, ⟨uuid 4⟩, 0, none, time 6⟩]
  rankings := []

def awards : List Award := [⟨⟨uuid 5⟩, ⟨uuid 2⟩, 1, 20⟩, ⟨⟨uuid 6⟩, ⟨uuid 3⟩, 2, 10⟩]

def rankings : List Ranking := [⟨⟨uuid 2⟩, 20, 0⟩, ⟨⟨uuid 3⟩, 10, 0⟩]

/-- The steps up to the end of the event, which starts before anyone signs out. -/
def whole : List Step :=
    steps (time 50) ++ [.call ⟨uuid 8, time 80⟩ (.service (.endEvent ⟨uuid 4⟩))]

theorem after_steps : Session.start.after (steps (time 50)) = ⟨club (time 50), none⟩ := by
  decide +kernel

theorem isService_whole : ∀ x ∈ whole, x.isService = true := by
  decide +kernel

theorem consistent : (club (time 50)).Consistent := by
  have h : (Session.start.after (steps (time 50))).club.Consistent :=
    Session.consistent_after (by decide +kernel)
  rwa [after_steps] at h

theorem ends : (Service.endEvent ⟨uuid 4⟩).Yields (club (time 50)) ⟨⟨uuid 4⟩, 2, awards⟩
    ((club (time 50)).closed (event (time 50)) awards rankings) := by
  have hfinishers : (club (time 50)).finishers (event (time 50)) =
      ((club (time 50)).field ⟨uuid 4⟩).map (Participant.leave (time 50)) :=
    List.mergeSort_of_pairwise (by decide +kernel)
  refine (Service.endEvent_yields consistent).mpr
    ⟨event (time 50), awards, [(⟨uuid 2⟩, 20), (⟨uuid 3⟩, 10)], rankings,
      by decide +kernel, rfl, ?_, by decide +kernel, by decide +kernel, by decide +kernel, rfl, rfl⟩
  rw [hfinishers]
  decide +kernel

theorem after_whole :
    Session.start.after whole =
      ⟨(club (time 50)).closed (event (time 50)) awards rankings, none⟩ := by
  have hcall : ((ServiceCall.endEvent ⟨uuid 4⟩).run ⟨uuid 8, time 80⟩).Yields (club (time 50))
      (.standings ⟨⟨uuid 4⟩, 2, awards⟩)
      ((club (time 50)).closed (event (time 50)) awards rankings) :=
    Work.map_yields.mpr ⟨_, ends, rfl⟩
  rw [whole, Session.after_concat, after_steps]
  exact Session.step_of_yields hcall

end Night

end CardClub
