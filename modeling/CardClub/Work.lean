import CardClub.Club.Statement
import CardClub.ServiceError

/-!
# Units of work

Work runs on a session, which holds the club's tables and may hold one armed failure of the
database. An armed failure trips at the n-th moment of its kind from when it was armed. A
transaction keeps what its body has written only when the body succeeds and the commit does;
otherwise the tables are as they were, while the countdown of the armed failure goes on.
-/

namespace CardClub

/-- The moments at which the database can be made to fail. -/
inductive Moment where
  /-- An insertion into a table or a change of it. -/
  | write (table : Table)
  /-- Opening a transaction. -/
  | begin
  /-- Committing a transaction. -/
  | commit
  /-- Rolling a transaction back. -/
  | rollback
deriving DecidableEq, Repr

/-- A failure that waits for the n-th moment of its kind. -/
structure Fault where
  moment : Moment
  countdown : Nat
deriving DecidableEq

/-- The tables of the club and the armed failure, if there is one. -/
structure Session where
  club : Club
  armed : Option Fault
deriving DecidableEq

namespace Session

def start : Session := ⟨Club.empty, none⟩

instance : Inhabited Session := ⟨start⟩

def arm (s : Session) (fault : Fault) : Session := { s with armed := some fault }

/-- Reaches a moment: whether the armed failure trips there, and the session after it. A failure
that has tripped is not armed any more. -/
def reach (s : Session) (moment : Moment) : Bool × Session :=
  match s.armed with
  | none => (false, s)
  | some fault =>
    if fault.moment = moment then
      if fault.countdown ≤ 1 then (true, { s with armed := none })
      else (false, { s with armed := some ⟨moment, fault.countdown - 1⟩ })
    else (false, s)

@[simp] theorem reach_unarmed (c : Club) (moment : Moment) :
    reach ⟨c, none⟩ moment = (false, ⟨c, none⟩) := rfl

@[simp] theorem reach_club (s : Session) (moment : Moment) : (s.reach moment).2.club = s.club := by
  unfold reach
  split
  · rfl
  · split
    · split <;> rfl
    · rfl

end Session

/-- What a call draws from outside: an identifier for a new record and the time. -/
structure Stamp where
  uuid : Uuid
  now : Instant
deriving DecidableEq, Inhabited

/-- Work that may fail with an error. What it has written stays written when it fails. -/
def Work (ε α : Type) : Type := Session → Except ε α × Session

namespace Work

variable {ε δ α β : Type}

def run (w : Work ε α) (s : Session) : Except ε α × Session := w s

def give (a : α) : Work ε α := fun s => (.ok a, s)

def fail (e : ε) : Work ε α := fun s => (.error e, s)

/-- Goes on with the value of earlier work, unless that has failed. -/
def andThen (w : Work ε α) (next : α → Work ε β) : Work ε β := fun s =>
  match w s with
  | (.ok a, s) => next a s
  | (.error e, s) => (.error e, s)

instance : Monad (Work ε) where
  pure := give
  bind := andThen

def failIf (condition : Bool) (e : ε) : Work ε Unit :=
  if condition then fail e else give ()

/-- A value that is there, or a failure. -/
def require (value : Option α) (e : ε) : Work ε α :=
  match value with
  | some a => give a
  | none => fail e

/-- The value of a computation without tables, its error turned into one of the work. -/
def ofExcept (f : δ → ε) : Except δ α → Work ε α
  | .ok a => give a
  | .error e => fail (f e)

/-- The same work with its error turned into another. -/
def mapError (f : δ → ε) (w : Work δ α) : Work ε α := fun s =>
  match w s with
  | (.ok a, s) => (.ok a, s)
  | (.error e, s) => (.error (f e), s)

/-- Looks at the tables. -/
def read (view : Club → α) : Work ε α := fun s => (.ok (view s.club), s)

def write (table : Table) (statement : Statement α) : Work StoreError α := fun s =>
  match s.reach (.write table) with
  | (true, s) => (.error (.database .injected), s)
  | (false, s) =>
    match statement s.club with
    | .ok (a, club) => (.ok a, { s with club })
    | .error e => (.error (.database e), s)

def transaction (body : Work ServiceError α) : Work ServiceError α := fun s =>
  match s.reach .begin with
  | (true, s) => (.error (.ofDatabase .injected), s)
  | (false, s) =>
    match body s with
    | (.ok a, after) =>
      match after.reach .commit with
      | (false, after) => (.ok a, after)
      | (true, after) => (.error (.ofDatabase .injected), { after with club := s.club })
    | (.error e, after) => (.error e, { (after.reach .rollback).2 with club := s.club })

@[simp] theorem give_run (a : α) (s : Session) : (give a : Work ε α).run s = (.ok a, s) := rfl

@[simp] theorem fail_run (e : ε) (s : Session) : (fail e : Work ε α).run s = (.error e, s) := rfl

@[simp] theorem pure_run (a : α) (s : Session) : (pure a : Work ε α).run s = (.ok a, s) := rfl

theorem bind_run (w : Work ε α) (next : α → Work ε β) (s : Session) :
    (w >>= next).run s =
      match w.run s with
      | (.ok a, s) => (next a).run s
      | (.error e, s) => (.error e, s) := rfl

@[simp] theorem read_run (view : Club → α) (s : Session) :
    (read view : Work ε α).run s = (.ok (view s.club), s) := rfl

/-- A transaction that fails leaves the tables as they were. -/
theorem transaction_club_of_error {body : Work ServiceError α} {s after : Session}
    {e : ServiceError}
    (h : (transaction body).run s = (.error e, after)) : after.club = s.club := by
  simp only [run, transaction] at h
  split at h
  next hb =>
    obtain ⟨_, rfl⟩ := Prod.mk.inj h
    rw [← s.reach_club .begin, hb]
  next hb =>
    have hc := s.reach_club .begin
    rw [hb] at hc
    split at h
    · split at h
      · exact absurd (Prod.mk.inj h).1 (by simp)
      · obtain ⟨_, rfl⟩ := Prod.mk.inj h
        exact hc
    · obtain ⟨_, rfl⟩ := Prod.mk.inj h
      exact hc

end Work

end CardClub
