import CardClub.Numeral
import CardClub.Uuid

/-!
# Identifiers in text

An identifier is written as 32 lower-case hexadecimal digits in groups of 8, 4, 4, 4 and 12. Readers
also take upper case, the digits without groups, and the grouped form in braces or after a
`urn:uuid:` head in any case.
-/

namespace CardClub.Uuid

/-- The sizes of the groups of the written form. -/
def groups : List Nat := [8, 4, 4, 4, 12]

/-- Sets hyphens between groups of the given sizes. -/
def group : List Nat → List Char → List Char
  | [], cs => cs
  | [_], cs => cs
  | w :: ws, cs => cs.take w ++ '-' :: group ws (cs.drop w)

def ungroup? : List Nat → List Char → Option (List Char)
  | [], cs => if cs.isEmpty then some [] else none
  | [w], cs => if cs.length = w then some cs else none
  | w :: ws, cs =>
    match cs.drop w with
    | '-' :: rest => (ungroup? ws rest).map (cs.take w ++ ·)
    | _ => none

def ofHex? (cs : List Char) : Option Uuid :=
  if cs.length = 32 then
    (cs.mapM Numeral.hexDigit?).bind fun ds => ofNat? (Numeral.value 16 ds)
  else none

def ofGroups? (cs : List Char) : Option Uuid :=
  (ungroup? groups cs).bind ofHex?

def hex (u : Uuid) : List Char :=
  (Numeral.digits 16 32 u.number).map Nat.digitChar

def toChars (u : Uuid) : List Char :=
  group groups u.hex

def toText (u : Uuid) : String :=
  String.ofList u.toChars

/-- The head of the form with a name space. -/
def nameSpace : List Char := "urn:uuid:".toList

/-- Whether a text has the head of the form with a name space, in any case. -/
def inNameSpace (cs : List Char) : Bool :=
  (cs.take nameSpace.length).map Char.toLower == nameSpace

def ofChars? : List Char → Option Uuid
  | '{' :: cs =>
    match cs.getLast? with
    | some '}' => ofGroups? cs.dropLast
    | _ => none
  | cs =>
    if cs.length = 32 then ofHex? cs
    else if inNameSpace cs then ofGroups? (cs.drop nameSpace.length)
    else ofGroups? cs

def ofText? (s : String) : Option Uuid :=
  ofChars? s.toList

end CardClub.Uuid

namespace CardClub.Id

variable {k : Kind}

def toText (i : Id k) : String := i.uuid.toText

end CardClub.Id
