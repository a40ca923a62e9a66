import CardClub.Proofs.Atomicity
import CardClub.Proofs.Schema
import Mathlib.Data.List.Induction

/-!
# Histories

In a history of a session, calls are made and failures of the database are armed, in any order. The
log of a history has one entry for each call: the tables before it, the call and its answer. A step
of a service either leaves the tables as they are or has the effect that its call has when nothing
is armed.
-/

namespace CardClub

/-- A step of a history. -/
inductive Step where
  | call (stamp : Stamp) (call : Call)
  | arm (fault : Fault)

namespace Step

/-- Whether a step is no call but that of a service. -/
def isService : Step → Bool
  | call _ (.service _) => true
  | call _ _ => false
  | arm _ => true

/-- Whether a step is no change from outside. -/
def isProgram : Step → Bool
  | call _ (.outside _) => false
  | _ => true

/-- The identifier that a service draws for the record it is to make. -/
def drawn? : Step → Option Uuid
  | call stamp (.service (.createSemester ..)) => some stamp.uuid
  | call stamp (.service (.createMembership ..)) => some stamp.uuid
  | call stamp (.service (.createEvent ..)) => some stamp.uuid
  | call stamp (.service (.enterEvent ..)) => some stamp.uuid
  | _ => none

theorem isProgram_of_isService {x : Step} (h : x.isService = true) : x.isProgram = true := by
  rcases x with ⟨stamp, call⟩ | fault
  · cases call
    · rfl
    · simp [isService] at h
    · simp [isService] at h
  · rfl

theorem composed_of_isProgram {stamp : Stamp} {c : Call} (h : (call stamp c).isProgram = true) :
    Composed (c.run stamp) := by
  cases c with
  | service call => exact (call.composed stamp).mapError
  | store call => exact (call.composed stamp).mapError
  | outside change => simp [isProgram] at h

end Step

/-- A call as it was made and answered. -/
structure Entry where
  before : Club
  stamp : Stamp
  call : Call
  answer : Except CallError Reply

/-- Whether the identifiers that services draw grow from call to call. -/
def idsGrow (steps : List Step) : Prop := (steps.filterMap Step.drawn?).Pairwise (· < ·)

namespace Session

def step (s : Session) : Step → Session
  | .call stamp call => ((call.run stamp).run s).2
  | .arm fault => s.arm fault

def after (s : Session) (steps : List Step) : Session := steps.foldl step s

/-- The calls of a history. -/
def log (s : Session) : List Step → List Entry
  | [] => []
  | .call stamp call :: steps =>
      ⟨s.club, stamp, call, ((call.run stamp).run s).1⟩ :: log (s.step (.call stamp call)) steps
  | .arm fault :: steps => log (s.step (.arm fault)) steps

variable {s : Session} {steps : List Step} {x : Step}

@[simp] theorem after_nil : s.after [] = s := rfl

@[simp] theorem after_cons : s.after (x :: steps) = (s.step x).after steps := rfl

theorem after_append (ys : List Step) : s.after (steps ++ ys) = (s.after steps).after ys :=
  List.foldl_append

theorem after_concat : s.after (steps ++ [x]) = (s.after steps).step x := after_append [x]

theorem log_append (ys : List Step) : s.log (steps ++ ys) =
    s.log steps ++ (s.after steps).log ys := by
  induction steps generalizing s with
  | nil => rfl
  | cons x steps ih =>
      cases x with
      | call stamp call => simp only [List.cons_append, log, ih, after_cons]
      | arm fault => simp only [List.cons_append, log, ih, after_cons]

/-- A property of the tables that every allowed call keeps holds after every history of allowed
steps. -/
theorem after_keeps {P : Club → Prop} {allowed : Step → Bool}
    (hcall : ∀ stamp call, allowed (.call stamp call) = true → (call.run stamp).Preserves P)
    (hsteps : ∀ x ∈ steps, allowed x = true) (h : P s.club) : P (s.after steps).club := by
  induction steps generalizing s with
  | nil => exact h
  | cons x steps ih =>
      refine ih (fun y hy => hsteps y (List.mem_cons_of_mem _ hy)) ?_
      cases x with
      | call stamp call => exact hcall stamp call (hsteps _ List.mem_cons_self) s h
      | arm fault => exact h

/-- The tables are consistent in every state that services and stores can reach. -/
theorem consistent_after (hsteps : ∀ x ∈ steps, x.isProgram = true) :
    (start.after steps).club.Consistent :=
  after_keeps (fun _ _ hcall => (Step.composed_of_isProgram hcall).preserves Written.consistent)
    hsteps
    Club.Consistent.empty

theorem run_service (s : Session) (stamp : Stamp) (call : ServiceCall) :
    ((Call.service call).run stamp).run s =
      (((call.run stamp).run s).1.mapError .service, ((call.run stamp).run s).2) :=
  Work.mapError_run CallError.service (call.run stamp) s

/-- A step of a service either leaves the tables as they are, and then no call has succeeded, or it
is a call that has succeeded, with the effect it has when nothing is armed. -/
theorem step_service (hx : x.isService = true) :
    ((s.step x).club = s.club ∧ ∀ entry ∈ s.log [x], ∃ e, entry.answer = .error e) ∨
      ∃ stamp call reply, x = .call stamp (.service call) ∧
        (call.run stamp).Yields s.club reply (s.step x).club ∧
        s.log [x] = [⟨s.club, stamp, .service call, .ok reply⟩] := by
  rcases x with ⟨stamp, call⟩ | fault
  · cases call with
    | service call =>
        simp only [step, log, run_service, List.mem_singleton, forall_eq]
        rcases hcall : (call.run stamp).run s with ⟨r, t⟩
        cases r with
        | error e => exact .inl ⟨call.atomic stamp s e t hcall, _, rfl⟩
        | ok reply =>
            exact .inr ⟨stamp, call, reply, rfl, (call.composed stamp).regular.yields hcall, rfl⟩
    | store call => simp [Step.isService] at hx
    | outside change => simp [Step.isService] at hx
  · exact .inl ⟨rfl, by simp [log]⟩

/-- What holds of a history without steps and passes to one more step holds of every history of
services. -/
theorem service_history {P : List Step → Prop} (hstart : P [])
    (hstep : ∀ steps x, (∀ y ∈ steps, y.isService = true) → x.isService = true →
      (start.after steps).club.Consistent → P steps → P (steps ++ [x]))
    (hsteps : ∀ x ∈ steps, x.isService = true) : P steps := by
  induction steps using List.reverseRecOn with
  | nil => exact hstart
  | append_singleton steps x ih =>
      have hbefore : ∀ y ∈ steps, y.isService = true :=
        fun y hy => hsteps y (List.mem_append_left _ hy)
      have hx := hsteps x (List.mem_append_right _ (List.mem_singleton_self x))
      have hc : (start.after steps).club.Consistent :=
        consistent_after fun y hy => Step.isProgram_of_isService (hbefore y hy)
      exact hstep steps x hbefore hx hc (ih hbefore)

/-- A property of the log and the tables holds after every history of services if failed calls keep
it while the tables stay as they are, and successful ones do with the tables that they leave. -/
theorem service_log {P : List Entry → Club → Prop} (hstart : P [] Club.empty)
    (hfailed : ∀ {log c entries}, P log c → (∀ x ∈ entries, ∃ e, x.answer = .error e) →
      P (log ++ entries) c)
    (hcall : ∀ {log c stamp call reply c'}, c.Consistent → P log c →
      (ServiceCall.run stamp call).Yields c reply c' →
        P (log ++ [⟨c, stamp, .service call, .ok reply⟩]) c')
    (hsteps : ∀ x ∈ steps, x.isService = true) : P (start.log steps) (start.after steps).club := by
  apply service_history (P := fun steps => P (start.log steps) (start.after steps).club)
    hstart ?_ hsteps
  intro steps x _ hx hc ih
  rw [after_concat, log_append]
  rcases step_service hx with ⟨hclub, hlog⟩ | ⟨stamp, call, reply, -, hyields, hlog⟩
  · rw [hclub]
    exact hfailed ih hlog
  · rw [hlog]
    exact hcall hc ih hyields

/-- Without an armed failure, a call that succeeds is a step to the tables that it leaves. -/
theorem step_of_yields {c c' : Club} {stamp : Stamp} {call : ServiceCall} {reply : Reply}
    (h : (call.run stamp).Yields c reply c') :
    (⟨c, none⟩ : Session).step (.call stamp (.service call)) = ⟨c', none⟩ :=
  congrArg Prod.snd (Work.mapError_yields.mpr h)

end Session

end CardClub
