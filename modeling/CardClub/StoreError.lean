import CardClub.Row
import CardClub.Uuid.Text

/-!
# Errors of the stores

A statement fails because the database refuses or breaks off, because a record that must exist does
not, or because a row cannot be read. Before any statement, the settings or the migrations may fail.
-/

namespace CardClub

/-- The kinds of record that a message may name. -/
inductive Entity where
  | semester
  | event
  | participant
  | membership
  | ranking
deriving DecidableEq, Repr

def Entity.label : Entity → String
  | semester => "semester"
  | event => "event"
  | participant => "participant"
  | membership => "membership"
  | ranking => "ranking"

def Entity.ofLabel? (s : String) : Option Entity :=
  [semester, event, participant, membership, ranking].find? fun e => e.label == s

/-- The tables of the database. -/
inductive Table where
  | semesters
  | memberships
  | events
  | participants
  | rankings
deriving DecidableEq, Repr

def Table.label : Table → String
  | semesters => "semesters"
  | memberships => "memberships"
  | events => "events"
  | participants => "participants"
  | rankings => "rankings"

/-- The places where a running budget is read: out of its row, and out of the answer to an
adjustment. -/
inductive BudgetColumn where
  | ofRow
  | ofAdjustment
deriving DecidableEq, Repr

def BudgetColumn.label : BudgetColumn → String
  | ofRow => "\"current_budget\""
  | ofAdjustment => "0"

/-- Why the database does not carry out a statement. -/
inductive DatabaseError where
  | noRows
  | poolTimedOut
  | poolClosed
  | protocol (text : String)
  | columnNotFound (name : String)
  | unreadableBudget (column : BudgetColumn)
  | uniqueViolation (table : Table)
  | foreignKeyViolation (table : Table)
  | checkViolation (table : Table)
  | pointsOutOfRange
  | countOutOfRange
  | injected
deriving DecidableEq

def DatabaseError.message : DatabaseError → String
  | noRows => "no rows returned by a query that expected to return at least one row"
  | poolTimedOut => "pool timed out while waiting for an open connection"
  | poolClosed => "attempted to acquire a connection on a closed pool"
  | protocol text => s!"encountered unexpected or invalid data: {text}"
  | columnNotFound name => s!"no column found for name: {name}"
  | unreadableBudget column =>
    s!"error occurred while decoding column {column.label}: " ++
      "value not representable as rust_decimal::Decimal"
  | uniqueViolation table =>
    "error returned from database: duplicate key value violates unique constraint of " ++
      s!"\"{table.label}\""
  | foreignKeyViolation table =>
    "error returned from database: insert or update on table " ++
      s!"\"{table.label}\" violates foreign key constraint"
  | checkViolation table =>
    "error returned from database: new row for relation " ++
      s!"\"{table.label}\" violates check constraint"
  | pointsOutOfRange => "error returned from database: bigint out of range"
  | countOutOfRange => "error returned from database: integer out of range"
  | injected => "error returned from database: injected failure"

/-- Why a store cannot do what it is asked. -/
inductive StoreError where
  | database (cause : DatabaseError)
  | migration (text : String)
  | notFound (entity : Entity) (id : Uuid)
  | unreadable (cause : RowError)
  | configuration (text : String)
deriving DecidableEq

namespace StoreError

def message : StoreError → String
  | database cause => s!"PostgreSQL error: {cause.message}"
  | migration text => s!"PostgreSQL migration error: {text}"
  | notFound entity id => s!"{entity.label} {id.toText} not found"
  | unreadable cause => s!"decode error: {cause.message}"
  | configuration text => s!"Configuration error: {text}"

/-- Whether a value that must be unique was there already. -/
def isUniqueViolation : StoreError → Bool
  | database (.uniqueViolation _) => true
  | _ => false

/-- Whether a record was referred to that does not exist. -/
def isForeignKeyViolation : StoreError → Bool
  | database (.foreignKeyViolation _) => true
  | _ => false

end StoreError

end CardClub
