import CardClub.Numeral
import CardClub.Yaml.Token

/-!
# Nodes and documents

A document is a node whose parts are nodes. An alias refers to an anchored node, which may also be
one that the alias stands in, so aliases are kept, and followed where a reader comes to one. Scalars
are read by how they are written: any scalar is a text, but only some plain ones are numbers or
truth values.
-/

namespace CardClub.Yaml

/-- A part of a document. -/
inductive Node where
  | scalar (style : Style) (tag : Option (List UInt8)) (text : List Char)
  | sequence (items : List Node)
  | mapping (entries : List (Node × Node))
  | alias (anchor : Nat)
deriving Repr

/-- A node, and the nodes in it that aliases refer to, by their numbers. Of several with one number
the first counts. -/
structure Document where
  root : Node
  anchored : List (Nat × Node) := []
deriving Repr

namespace Node

/-- What stands where nothing is written. -/
def blank (tag : Option (List UInt8)) : Node := .scalar .plain tag []

def plain (s : String) : Node := .scalar .plain none s.toList

def isBlank : Node → Bool
  | scalar .plain _ [] => true
  | _ => false

def text? : Node → Option String
  | scalar _ _ text => some (String.ofList text)
  | _ => none

def wholeTag : List UInt8 := octetsOf "tag:yaml.org,2002:int".toList

def truthTag : List UInt8 := octetsOf "tag:yaml.org,2002:bool".toList

/-- The text of a scalar that may stand for something else than a text: of a plain one, and of a
literal one with the tag of the thing. -/
def bare? (kind : List UInt8) : Node → Option (List Char)
  | scalar .plain _ text => some text
  | scalar .literal (some tag) text => if tag = kind then some text else none
  | _ => none

def digit? (base : Nat) (c : Char) : Option Nat :=
  (Numeral.decimalDigit? c).bind fun d => if d < base then some d else none

/-- The number that the digits of a text spell, of which there is at least one. -/
def number? (base : Nat) (digit? : Char → Option Nat) (cs : List Char) : Option Nat :=
  if cs.isEmpty then none else (cs.mapM digit?).map (Numeral.value base)

/-- The number that a text without a sign spells: in base 16, 8 or 2 behind `0x`, `0o` or `0b`, and
else in base 10 without leading zeros. -/
def unsigned? : List Char → Option Nat
  | '0' :: 'x' :: ds => number? 16 Numeral.hexDigit? ds
  | '0' :: 'o' :: ds => number? 8 (digit? 8) ds
  | '0' :: 'b' :: ds => number? 2 (digit? 2) ds
  | ['0'] => some 0
  | '0' :: _ => none
  | ds => number? 10 Numeral.decimalDigit? ds

/-- The number that a text spells, with a plus sign or without. -/
def numberOf? : List Char → Option Nat
  | '+' :: cs => unsigned? cs
  | cs => unsigned? cs

def truthOf? (cs : List Char) : Option Bool :=
  if ["true", "True", "TRUE"].contains (String.ofList cs) then some true
  else if ["false", "False", "FALSE"].contains (String.ofList cs) then some false
  else none

/-- The number below a limit that a scalar stands for. -/
def number (limit : Nat) (node : Node) : Option Nat :=
  ((node.bare? wholeTag).bind numberOf?).bind fun n => if n < limit then some n else none

def truth? (node : Node) : Option Bool := (node.bare? truthTag).bind truthOf?

def isNull (cs : List Char) : Bool :=
  ["", "~", "null", "Null", "NULL"].contains (String.ofList cs)

/-- The text of a tag of the document's own, after its exclamation mark. -/
def ownTag? : List UInt8 → Option String
  | [] => none
  | octet :: name => if [octet] = bang then String.fromUTF8? name.toByteArray else none

/-- The name of a choice: a tag of the document's own, on a scalar that spells the absence of a
value, or the text of a scalar without such a tag. -/
def choice? : Node → Option String
  | scalar style tag text =>
    match tag.bind ownTag? with
    | some name => if style = .plain ∧ isNull text then some name else none
    | none => some (String.ofList text)
  | _ => none

end Node

namespace Document

def blank : Document := ⟨.blank none, []⟩

/-- The node that a node stands for. -/
def follow (d : Document) : Node → Node
  | .alias anchor => (d.anchored.lookup anchor).getD (.alias anchor)
  | node => node

@[simp] theorem follow_scalar (d : Document) (style : Style) (tag : Option (List UInt8))
    (text : List Char) :
    d.follow (.scalar style tag text) = .scalar style tag text := rfl

@[simp] theorem follow_sequence (d : Document) (items : List Node) :
    d.follow (.sequence items) = .sequence items := rfl

@[simp] theorem follow_mapping (d : Document) (entries : List (Node × Node)) :
    d.follow (.mapping entries) = .mapping entries := rfl

/-- The keys and values of a mapping. Where nothing is written stands the empty mapping. -/
def entries? (d : Document) (node : Node) : Option (List (Node × Node)) :=
  match d.follow node with
  | .mapping entries => some entries
  | node => if node.isBlank then some [] else none

/-- An entry of a mapping, whose key has to be a scalar. -/
def field? (d : Document) (entry : Node × Node) : Option (String × Node) :=
  ((d.follow entry.1).text?).map fun key => (key, entry.2)

/-- The entries of a mapping whose keys are among the given ones, each of which may come but once.
All keys have to be scalars. -/
def fields? (d : Document) (known : List String) (node : Node) : Option (List (String × Node)) :=
  (d.entries? node).bind fun entries =>
    (entries.mapM d.field?).bind fun fields =>
      let fields := fields.filter fun f => known.contains f.1
      if (fields.map (·.1)).Nodup then some fields else none

end Document

end CardClub.Yaml
