import CardClub.Decimal.Binary
import CardClub.Decimal.Text
import CardClub.Event
import CardClub.Instant.Text
import CardClub.Json
import CardClub.Range
import CardClub.Uuid.Text

/-!
# JSON forms of single values

Identifiers, instants, decimals and states are written as texts, counts and points as whole numbers.
Decimals are also read from numbers, and a state also from an object that has its word as only key.
-/

namespace CardClub

namespace Uuid

def toJson (u : Uuid) : Json := .text u.toText

def ofJson? (v : Json) : Option Uuid := v.toText?.bind ofText?

end Uuid

namespace Id

variable {k : Kind}

def toJson (i : Id k) : Json := i.uuid.toJson

def ofJson? (v : Json) : Option (Id k) := (Uuid.ofJson? v).map Id.mk

end Id

namespace Instant

def toJson (t : Instant) : Json := .text t.toText

def ofJson? (v : Json) : Option Instant := v.toText?.bind ofText?

end Instant

namespace Decimal

def toJson (d : Decimal) : Json := .text d.toText

/-- Whole numbers of up to 64 bits are exact; all other numbers pass through binary fractions. -/
def ofJson? : Json → Option Decimal
  | .text s => ofText? s
  | .integer n =>
    if -(pointsLimit : Int) ≤ n ∧ n < 2 * pointsLimit then ofParts? n 0 else ofFigures? (.ofInt n)
  | .real figures => ofFigures? figures
  | _ => none

end Decimal

namespace EventState

def toJson (s : EventState) : Json := .text s.label

def ofJson? : Json → Option EventState
  | .text s => ofLabel? s
  | .object [(key, .null)] => ofLabel? key
  | _ => none

end EventState

/-- A count of at most 32 bits. -/
def Json.toCount? (v : Json) : Option Nat := (v.toInt? fitsCount).map Int.toNat

/-- A number of points, of 64 bits with a sign. -/
def Json.toPoints? (v : Json) : Option Int := v.toInt? fitsPoints

def Json.count (n : Nat) : Json := .integer n

end CardClub
