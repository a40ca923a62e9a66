/-!
# Tokens

The words of a YAML text. Indentation is spelled out: block collections have tokens for their
beginning and their end, and a key is announced also where the text shows so only by the colon
behind it. Tags are octets, since any octet may be written in them.
-/

namespace CardClub.Yaml

/-- The octets of characters that have one each. -/
def octetsOf (cs : List Char) : List UInt8 := cs.map fun c => c.toNat.toUInt8

/-- The tag that is an exclamation mark alone. -/
def bang : List UInt8 := octetsOf ['!']

/-- How a scalar is written. -/
inductive Style where
  | plain
  | quoted
  | literal
  | folded
deriving DecidableEq, Repr

/-- A word of a YAML text. -/
inductive Token where
  /-- The directive that names a version of the format that is known. -/
  | version
  /-- The directive that lets a handle stand for the front of tags. -/
  | handle (name : List Char) (front : List UInt8)
  | documentStart
  | documentEnd
  | blockSequenceStart
  | blockMappingStart
  | blockEnd
  | flowSequenceStart
  | flowSequenceEnd
  | flowMappingStart
  | flowMappingEnd
  | blockEntry
  | flowEntry
  | key
  | value
  | alias (name : List Char)
  | anchor (name : List Char)
  /-- A tag: its handle, empty where the tag is complete, and the rest of it. -/
  | tag (handle : List Char) (rest : List UInt8)
  | scalar (style : Style) (text : List Char)
deriving DecidableEq, Repr

end CardClub.Yaml
