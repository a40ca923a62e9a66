/-!
# Identifiers

An identifier is a number of 128 bits. Identifiers compare as these numbers, which is also the order
of their written forms, and identifiers of different kinds of record are different types.
-/

namespace CardClub

/-- Identifiers are below this limit. -/
def uuidLimit : Nat := Nat.pow 2 128

/-- A 128-bit identifier. -/
structure Uuid where
  /-- The identifier as a number. -/
  number : Nat
  number_lt : number < uuidLimit
deriving DecidableEq

namespace Uuid

/-- The identifier with a given number, when the number has at most 128 bits. -/
def ofNat? (n : Nat) : Option Uuid :=
  if h : n < uuidLimit then some ⟨n, h⟩ else none

def zero : Uuid := ⟨0, by decide⟩

instance : Inhabited Uuid := ⟨zero⟩

instance : LT Uuid := ⟨fun a b => a.number < b.number⟩
instance : LE Uuid := ⟨fun a b => a.number ≤ b.number⟩
instance (a b : Uuid) : Decidable (a < b) := inferInstanceAs (Decidable (a.number < b.number))
instance (a b : Uuid) : Decidable (a ≤ b) := inferInstanceAs (Decidable (a.number ≤ b.number))

theorem lt_def {a b : Uuid} : a < b ↔ a.number < b.number := Iff.rfl

theorem le_def {a b : Uuid} : a ≤ b ↔ a.number ≤ b.number := Iff.rfl

theorem ext_number {a b : Uuid} (h : a.number = b.number) : a = b := by
  cases a; cases b; simpa using h

@[simp] theorem ofNat?_number (u : Uuid) : ofNat? u.number = some u := by
  rw [ofNat?, dif_pos u.number_lt]

end Uuid

/-- The kinds of record that carry an identifier of their own, and the two outside kinds that
records refer to: the blind structure of an event and the user behind a membership. -/
inductive Kind where
  | semester | membership | event | participant | blindStructure | user
deriving DecidableEq, Repr

/-- An identifier of one kind of record. -/
structure Id (k : Kind) where
  /-- The identifier itself. -/
  uuid : Uuid
deriving DecidableEq

namespace Id

variable {k : Kind}

instance : Inhabited (Id k) := ⟨⟨Uuid.zero⟩⟩

instance : LT (Id k) := ⟨fun a b => a.uuid < b.uuid⟩
instance : LE (Id k) := ⟨fun a b => a.uuid ≤ b.uuid⟩
instance (a b : Id k) : Decidable (a < b) := inferInstanceAs (Decidable (a.uuid < b.uuid))
instance (a b : Id k) : Decidable (a ≤ b) := inferInstanceAs (Decidable (a.uuid ≤ b.uuid))

theorem lt_def {a b : Id k} : a < b ↔ a.uuid.number < b.uuid.number := Iff.rfl

theorem le_def {a b : Id k} : a ≤ b ↔ a.uuid.number ≤ b.uuid.number := Iff.rfl

theorem ext_uuid {a b : Id k} (h : a.uuid = b.uuid) : a = b := by
  cases a; cases b; simpa using h

theorem le_antisymm {a b : Id k} (hab : a ≤ b) (hba : b ≤ a) : a = b :=
  ext_uuid (Uuid.ext_number (Nat.le_antisymm hab hba))

theorem le_total (a b : Id k) : a ≤ b ∨ b ≤ a := Nat.le_total a.uuid.number b.uuid.number

theorem le_trans {a b c : Id k} (hab : a ≤ b) (hbc : b ≤ c) : a ≤ c := Nat.le_trans hab hbc

end Id

abbrev SemesterId := Id .semester
abbrev MembershipId := Id .membership
abbrev EventId := Id .event
abbrev ParticipantId := Id .participant
abbrev StructureId := Id .blindStructure
abbrev UserId := Id .user

end CardClub
