import CardClub.Figures

/-!
# JSON values

JSON values as the records of the club use them. Whole numbers are exact; a number written with a
fraction or an exponent is kept in figures. A record is an object with named fields, or an array of
all its fields in order; fields that an object does not have read as null.
-/

namespace CardClub

/-- A JSON value. -/
inductive Json where
  | null
  | bool (b : Bool)
  /-- A number written without fraction and exponent. -/
  | integer (n : Int)
  /-- A number written with a fraction or an exponent. -/
  | real (figures : Figures)
  | text (s : String)
  | array (items : List Json)
  | object (members : List (String × Json))

namespace Json

instance : Inhabited Json := ⟨null⟩

/-- A member of an object; null when there is none. -/
def get (key : String) : Json → Json
  | object members => (members.lookup key).getD null
  | _ => null

/-- The fields of a record, in the order of their names. -/
def fields? (names : List String) : Json → Option (List Json)
  | object members => some (names.map fun name => (members.lookup name).getD null)
  | array items => if items.length = names.length then some items else none
  | _ => none

def toBool? : Json → Option Bool
  | bool b => some b
  | _ => none

def toText? : Json → Option String
  | text s => some s
  | _ => none

def toInt? (fits : Int → Bool) : Json → Option Int
  | integer n => if fits n then some n else none
  | _ => none

def toArray? : Json → Option (List Json)
  | array items => some items
  | _ => none

def optional? {α : Type} (read : Json → Option α) : Json → Option (Option α)
  | null => some none
  | v => (read v).map some

def ofOption {α : Type} (write : α → Json) : Option α → Json
  | none => null
  | some a => write a

@[simp] theorem toBool?_bool (b : Bool) : toBool? (bool b) = some b := rfl

@[simp] theorem toText?_text (s : String) : toText? (text s) = some s := rfl

theorem optional?_ofOption {α : Type} {read : Json → Option α} {write : α → Json}
    (h : ∀ a, read (write a) = some a) (hn : ∀ a, write a ≠ null) (a : Option α) :
    optional? read (ofOption write a) = some a := by
  cases a with
  | none => rfl
  | some a =>
    have ha := h a
    have hna := hn a
    rw [ofOption]
    cases hw : write a <;> simp_all [optional?]

end Json

end CardClub
