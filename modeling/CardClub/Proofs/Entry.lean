import CardClub.Proofs.Failing
import CardClub.Proofs.Settled

/-!
# Who may enter an event

A membership enters an event if the event has started, both belong to one semester, and the
membership has not entered it before. `Club.Refuses` lists what is in the way in the order in which
it is tested; exactly one of these errors or an entry is the answer, and never a breakdown.
-/

namespace CardClub

open Work

namespace Club

/-- Whether a membership has entered an event. -/
def Entered (c : Club) (event : EventId) (membership : MembershipId) : Prop :=
  ∃ p ∈ c.participants, p.membershipId = membership ∧ p.eventId = event

instance (c : Club) (event : EventId) (membership : MembershipId) :
    Decidable (c.Entered event membership) :=
  inferInstanceAs
    (Decidable (∃ p ∈ c.participants, p.membershipId = membership ∧ p.eventId = event))

/-- Whether nothing is in the way of entering a membership in an event. -/
structure Admits (c : Club) (event : EventId) (membership : MembershipId) : Prop where
  together : ∃ e m, c.event? event = some e ∧ e.state = .started ∧
    c.membership? membership = some m ∧ m.semesterId = e.semesterId
  unentered : ¬ c.Entered event membership

/-- What is in the way of entering a membership in an event, after all that is tested before. -/
inductive Refuses (c : Club) (event : EventId) (membership : MembershipId) : ServiceError → Prop
    where
  | unknownEvent (he : c.event? event = none) :
      Refuses c event membership (.notFound .event event.uuid)
  | closed {e} (he : c.event? event = some e) (hended : e.state = .ended) :
      Refuses c event membership (.forbidden (.entriesClosed event))
  | unknownMember {e} (he : c.event? event = some e) (hopen : e.state = .started)
      (hm : c.membership? membership = none) :
      Refuses c event membership (.notFound .membership membership.uuid)
  | foreign {e m} (he : c.event? event = some e) (hopen : e.state = .started)
      (hm : c.membership? membership = some m) (hsemester : m.semesterId ≠ e.semesterId) :
      Refuses c event membership (.invalidRequest
        (.foreignMembership membership m.semesterId event e.semesterId))
  | duplicate {e m} (he : c.event? event = some e) (hopen : e.state = .started)
      (hm : c.membership? membership = some m) (hsemester : m.semesterId = e.semesterId)
      (hentered : c.Entered event membership) :
      Refuses c event membership (.invalidRequest (.duplicateEntry membership event))

variable {c : Club} {event : EventId} {membership : MembershipId}

theorem admits_or_refuses (c : Club) (event : EventId) (membership : MembershipId) :
    c.Admits event membership ∨ ∃ err, c.Refuses event membership err := by
  cases he : c.event? event with
  | none => exact .inr ⟨_, .unknownEvent he⟩
  | some e =>
      cases hstate : e.state with
      | ended => exact .inr ⟨_, .closed he hstate⟩
      | started =>
          cases hm : c.membership? membership with
          | none => exact .inr ⟨_, .unknownMember he hstate hm⟩
          | some m =>
              by_cases hsemester : m.semesterId = e.semesterId
              · by_cases hentered : c.Entered event membership
                · exact .inr ⟨_, .duplicate he hstate hm hsemester hentered⟩
                · exact .inl ⟨⟨e, m, he, hstate, hm, hsemester⟩, hentered⟩
              · exact .inr ⟨_, .foreign he hstate hm hsemester⟩

end Club

open Club

variable {c : Club} {stamp : Stamp} {event : EventId} {membership : MembershipId}
  {err : ServiceError}

namespace Statement

variable {id : ParticipantId} {now : Instant}

theorem any_entry_iff :
    (c.participants.any fun p =>
        decide (p.membershipId = membership) && decide (p.eventId = event)) = true ↔
      c.Entered event membership := by
  simp [Entered]

theorem insertParticipant_of_entered (h : c.Entered event membership) :
    insertParticipant id now event membership c = .error (.uniqueViolation .participants) := by
  simp only [insertParticipant, any_entry_iff.mpr h, Bool.or_true, if_true]

theorem insertParticipant_of_new {e : Event} {m : Membership}
    (hid : id ∉ c.participants.map (·.id)) (hentered : ¬ c.Entered event membership)
    (he : c.event? event = some e) (hm : c.membership? membership = some m) :
    insertParticipant id now event membership c =
      .ok (⟨id, membership, event, 0, none, now.stored⟩, { c with
        participants := c.participants ++ [⟨id, membership, event, 0, none, now.stored⟩] }) := by
  have hnone : c.participant? id = none := find?_key_eq_none.mpr hid
  have hany := Bool.eq_false_iff.mpr (mt any_entry_iff.mp hentered)
  simp [insertParticipant, hnone, hany, he, hm]

end Statement

namespace Service

/-- Whatever is in the way is the answer, and the tables stay as they are. -/
theorem enterEvent_of_refuses (h : c.Refuses event membership err) :
    (enterEvent stamp event membership).run ⟨c, none⟩ = (.error err, ⟨c, none⟩) := by
  have hfails : (enterEvent stamp event membership).Fails c err := by
    cases h with
    | unknownEvent he => exact fails_of_absent he
    | closed he hended => exact fails_of_refused (·.state.isEnded) he (hended ▸ rfl)
    | unknownMember he hopen hm =>
        refine fails_of_passed (·.state.isEnded) he (hopen ▸ rfl) ?_
        exact (getMembership_fails.mpr ⟨hm, rfl⟩).bind _
    | foreign he hopen hm hsemester =>
        refine fails_of_passed (·.state.isEnded) he (hopen ▸ rfl) ?_
        refine (getMembership_yields.mpr ⟨hm, rfl⟩).bind_fails.mpr ?_
        exact (failIf_fails.mpr ⟨bne_iff_ne.mpr hsemester, rfl⟩).bind _
    | duplicate he hopen hm hsemester hentered =>
        refine fails_of_passed (·.state.isEnded) he (hopen ▸ rfl) ?_
        refine (getMembership_yields.mpr ⟨hm, rfl⟩).bind_fails.mpr ?_
        have hsame := bne_eq_false_iff_eq.mpr hsemester
        refine (failIf_yields (u := ()).mpr ⟨hsame, rfl⟩).bind_fails.mpr ?_
        exact storeExcept_fails.mpr ⟨_, write_fails.mpr
          ⟨_, Statement.insertParticipant_of_entered hentered, rfl⟩, rfl⟩
  exact hfails.run_eq (composed_enterEvent stamp event membership).regular atomic_transaction

theorem enterEvent_of_admits (hid : (⟨stamp.uuid⟩ : ParticipantId) ∉ c.participants.map (·.id))
    (h : c.Admits event membership) :
    (enterEvent stamp event membership).Yields c
      ⟨⟨stamp.uuid⟩, membership, event, 0, none, stamp.now.stored⟩ { c with
        participants := c.participants ++
          [⟨⟨stamp.uuid⟩, membership, event, 0, none, stamp.now.stored⟩] } := by
  obtain ⟨e, m, he, hopen, hm, hsemester⟩ := h.together
  exact enterEvent_yields.mpr ⟨e, he, hopen ▸ rfl, m, hm, hsemester,
    Statement.insertParticipant_of_new hid h.unentered he hm⟩

end Service

/-- Where the database itself does not fail, a membership enters an event exactly if the event has
started, the membership exists in its semester and has not entered yet. Then one participant is
added, with the drawn identifier, no placement and no sign-out time. Otherwise nothing changes, and
the answer is the first thing in the way, which is never a breakdown. -/
theorem entry_decided (c : Club) (stamp : Stamp) (event : EventId) (membership : MembershipId)
    (hnew : (⟨stamp.uuid⟩ : ParticipantId) ∉ c.participants.map (·.id)) :
    let run := (Service.enterEvent stamp event membership).run ⟨c, none⟩
    let row : Participant := ⟨⟨stamp.uuid⟩, membership, event, 0, none, stamp.now.stored⟩
    ((∃ p, run.1 = .ok p) ↔ c.Admits event membership) ∧
    (∀ p, run.1 = .ok p →
      p = row ∧ run.2 = ⟨{ c with participants := c.participants ++ [row] }, none⟩) ∧
    (∀ err, run.1 = .error err ↔ c.Refuses event membership err) ∧
    (∀ err, run.1 = .error err → run.2 = ⟨c, none⟩) ∧
    ∀ cause, run.1 ≠ .error (.internal cause) := by
  intro run row
  rcases c.admits_or_refuses event membership with hadmits | ⟨err, hrefuses⟩
  · have hrun : run = (.ok row, ⟨{ c with participants := c.participants ++ [row] }, none⟩) :=
      Service.enterEvent_of_admits hnew hadmits
    have hnone (err : ServiceError) : ¬ c.Refuses event membership err := by
      intro hrefuses
      have herr := hrun.symm.trans (Service.enterEvent_of_refuses hrefuses)
      exact absurd (congrArg Prod.fst herr) nofun
    simp [hrun, hadmits, hnone, eq_comm]
  · have hrun : run = (.error err, ⟨c, none⟩) := Service.enterEvent_of_refuses hrefuses
    have hunique {err' : ServiceError} (h : c.Refuses event membership err') : err = err' := by
      have heq := hrun.symm.trans (Service.enterEvent_of_refuses h)
      exact Except.error.inj (congrArg Prod.fst heq)
    have hnot : ¬ c.Admits event membership := by
      intro hadmits
      have heq := hrun.symm.trans (Service.enterEvent_of_admits hnew hadmits)
      exact absurd (congrArg Prod.fst heq) nofun
    refine ⟨?_, ?_, fun err' => ⟨?_, ?_⟩, ?_, ?_⟩
    · simp [hrun, hnot]
    · simp [hrun]
    · intro h
      rw [hrun] at h
      exact Except.error.inj h ▸ hrefuses
    · intro h
      rw [hrun, hunique h]
    · simp [hrun]
    · intro cause h
      rw [hrun] at h
      obtain rfl := Except.error.inj h
      cases hrefuses

/-! ## A second entry

One of two members has entered. The other one may enter as well, the first one not again.
-/

namespace SecondEntry

open Night (uuid time)

def steps : List Step := (Night.steps (time 50)).take 5

def drawn : Stamp := ⟨uuid 6, time 6⟩

theorem event?_after :
    (Session.start.after steps).club.event? ⟨uuid 4⟩ = some (Night.event (time 50)) := by
  decide +kernel

theorem other_admitted : (Session.start.after steps).club.Admits ⟨uuid 4⟩ ⟨uuid 3⟩ :=
  ⟨⟨_, ⟨⟨uuid 3⟩, ⟨uuid 1⟩, ⟨uuid 92⟩, false, false, time 3⟩, event?_after, rfl,
    by decide +kernel, rfl⟩, by decide +kernel⟩

theorem first_refused : (Session.start.after steps).club.Refuses ⟨uuid 4⟩ ⟨uuid 2⟩
    (.invalidRequest (.duplicateEntry ⟨uuid 2⟩ ⟨uuid 4⟩)) :=
  .duplicate (m := ⟨⟨uuid 2⟩, ⟨uuid 1⟩, ⟨uuid 91⟩, false, false, time 2⟩) event?_after rfl
    (by decide +kernel) rfl (by decide +kernel)

end SecondEntry

theorem second_entry_decided :
    let c := (Session.start.after SecondEntry.steps).club
    let enter (m : Nat) := Service.enterEvent SecondEntry.drawn ⟨Night.uuid 4⟩ ⟨Night.uuid m⟩
    (⟨Night.uuid 6⟩ : ParticipantId) ∉ c.participants.map (·.id) ∧
      (∃ p, ((enter 3).run ⟨c, none⟩).1 = .ok p) ∧
      ((enter 2).run ⟨c, none⟩).1 =
        .error (.invalidRequest (.duplicateEntry ⟨Night.uuid 2⟩ ⟨Night.uuid 4⟩)) ∧
      ((enter 2).run ⟨c, none⟩).2 = ⟨c, none⟩ := by
  intro c enter
  have hnew : (⟨Night.uuid 6⟩ : ParticipantId) ∉ c.participants.map (·.id) := by decide +kernel
  obtain ⟨hok, -⟩ := entry_decided c SecondEntry.drawn ⟨Night.uuid 4⟩ ⟨Night.uuid 3⟩ hnew
  obtain ⟨-, -, hrefused, hkept, -⟩ :=
    entry_decided c SecondEntry.drawn ⟨Night.uuid 4⟩ ⟨Night.uuid 2⟩ hnew
  have herror := (hrefused _).mpr SecondEntry.first_refused
  exact ⟨hnew, hok.mpr SecondEntry.other_admitted, herror, hkept _ herror⟩

end CardClub
