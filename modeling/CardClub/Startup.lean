import CardClub.Settings
import CardClub.StoreError

/-!
# Starting up

Before a club is served, a pool of connections to its database is opened, the migrations are run and
the log is installed. What reads addresses, opens connections and runs migrations is not part of the
club and is given.
-/

namespace CardClub

/-! ### Connections -/

/-- The settings of a pool for an address: the standard limits, and no migrations. -/
def PoolSettings.ofUrl (url : String) : PoolSettings where
  url := url
  maxConnections := 10
  connectTimeoutSecs := 5
  idleTimeoutSecs := 300
  migrateOnConnect := false

/-- What reads the address of a database, opens connections to it and runs the migrations. -/
structure Access (Address Pool : Type) where
  address : String → Except String Address
  openPool : PoolSettings → Address → Except DatabaseError Pool
  migrate : Pool → Except String Pool

namespace Access

variable {Address Pool : Type} (access : Access Address Pool) {settings : PoolSettings}
  {text : String}

def connect (settings : PoolSettings) : Except StoreError Pool :=
  match access.address settings.url with
  | .error cause => .error (.configuration ("Invalid database URL: " ++ cause))
  | .ok address =>
    match access.openPool settings address with
    | .error cause => .error (.database cause)
    | .ok pool =>
      if settings.migrateOnConnect then (access.migrate pool).mapError .migration else .ok pool

/-- The settings are to blame exactly if their address cannot be read. -/
theorem connect_eq_configuration :
    access.connect settings = .error (.configuration text) ↔
      ∃ cause, access.address settings.url = .error cause ∧
        text = "Invalid database URL: " ++ cause := by
  unfold connect
  split
  · next cause hcause => simp [hcause, eq_comm]
  · next address haddress =>
    refine iff_of_false ?_ (by simp [haddress])
    split
    · simp
    · next pool hpool =>
      split
      · cases access.migrate pool <;> exact fun h => by cases h
      · simp

end Access

/-! ### The log -/

/-- A log: which lines go through, and how they are written. -/
structure Log where
  filter : String
  format : LogFormat
deriving DecidableEq, Repr

inductive LogError where
  | alreadyInstalled
deriving DecidableEq, Repr

def LogError.message : LogError → String
  | alreadyInstalled =>
    "failed to install tracing subscriber: " ++
      "a global default trace dispatcher has already been set"

/-- The log of these settings, unless one is installed. A filter that the environment gives goes
before their level. -/
def LoggingSettings.install (s : LoggingSettings) (filter : Option String) :
    Option Log → Except LogError Log
  | some _ => .error .alreadyInstalled
  | none => .ok ⟨filter.getD s.level, s.format⟩

end CardClub
