import CardClub.Proofs.Settled

/-!
# Failed calls

A service call that fails has changed nothing, however far it got: what its transaction had written
is taken back. Only the countdown of an armed failure may have gone on, so where none is armed the
session is what it was, and a failed call can be struck from its history.
-/

namespace CardClub

namespace Session

variable {s : Session} {stamp : Stamp} {call : ServiceCall} {cause : ServiceError}

theorem step_club_of_error (h : ((call.run stamp).run s).1 = .error cause) :
    (s.step (.call stamp (.service call))).club = s.club := by
  have hclub : ((call.run stamp).run s).2.club = s.club :=
    call.atomic stamp s cause _ (Prod.ext h rfl)
  rw [step, run_service]
  exact hclub

theorem step_unarmed (hs : s.armed = none) (stamp : Stamp) (call : ServiceCall) :
    (s.step (.call stamp (.service call))).armed = none := by
  obtain ⟨c, armed⟩ := s
  obtain rfl : armed = none := hs
  rw [step, run_service]
  exact (call.composed stamp).regular.unarmed c

theorem step_of_error (hs : s.armed = none) (h : ((call.run stamp).run s).1 = .error cause) :
    s.step (.call stamp (.service call)) = s := by
  have hclub := step_club_of_error h
  have harmed := step_unarmed hs stamp call
  calc s.step (.call stamp (.service call))
      = ⟨(s.step (.call stamp (.service call))).club,
          (s.step (.call stamp (.service call))).armed⟩ := rfl
    _ = ⟨s.club, s.armed⟩ := by rw [hclub, harmed, hs]

end Session

/-- A service call that fails leaves all tables as they were, whatever it had written before. Where
no failure is armed, all that follows is as if the call had not been made. -/
theorem failed_call_leaves_no_trace {s : Session} {stamp : Stamp} {call : ServiceCall}
    {cause : ServiceError} (hfailed : ((call.run stamp).run s).1 = .error cause) :
    (s.step (.call stamp (.service call))).club = s.club ∧
      (s.armed = none → ∀ more,
        s.after (.call stamp (.service call) :: more) = s.after more ∧
          s.log (.call stamp (.service call) :: more) =
            ⟨s.club, stamp, .service call, .error (.service cause)⟩ :: s.log more) := by
  refine ⟨Session.step_club_of_error hfailed, fun hs more => ?_⟩
  have hstep := Session.step_of_error hs hfailed
  constructor
  · rw [Session.after_cons, hstep]
  · rw [Session.log, hstep, Session.run_service, hfailed]
    rfl

/-! ## A budget that takes no more

The budget is the largest decimal. A rebuy is counted, and then its fee cannot be paid in.
-/

namespace FullBudget

open Night (uuid time)

def terms : SemesterTerms :=
  ⟨"Autumn", time 0, time 100, (Decimal.ofParts? (coefficientLimit - 1) 0).getD .zero,
    .one, .one, .one⟩

def steps : List Step :=
  [.call ⟨uuid 1, time 1⟩ (.service (.createSemester terms)),
    .call ⟨uuid 4, time 4⟩ (.service (.createEvent (Night.event (time 50)).toEventPlan))]

def stamp : Stamp := ⟨uuid 5, time 5⟩

def rebuy : ServiceCall := .newRebuy ⟨uuid 4⟩

def unreadable : ServiceError := .internal (.store (.database (.unreadableBudget .ofAdjustment)))

end FullBudget

theorem full_budget_leaves_no_trace :
    let s := Session.start.after FullBudget.steps
    let x := Step.call FullBudget.stamp (.service FullBudget.rebuy)
    (∃ c, Statement.incrementRebuys ⟨Night.uuid 4⟩ s.club = .ok (some 1, c) ∧ c ≠ s.club) ∧
      ((FullBudget.rebuy.run FullBudget.stamp).run s).1 = .error FullBudget.unreadable ∧
      (s.step x).club = s.club ∧ ∀ more, s.after (x :: more) = s.after more := by
  intro s x
  have hfailed : ((FullBudget.rebuy.run FullBudget.stamp).run s).1 =
      .error FullBudget.unreadable := by rfl
  obtain ⟨hclub, hmore⟩ := failed_call_leaves_no_trace hfailed
  have hunarmed : s.armed = none := by decide +kernel
  exact ⟨⟨_, rfl, by decide +kernel⟩, hfailed, hclub, fun more => (hmore hunarmed more).1⟩

end CardClub
