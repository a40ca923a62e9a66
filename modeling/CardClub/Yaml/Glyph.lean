/-!
# Characters in their places

YAML gives meaning to columns and to line breaks, so a text is read as characters that know their
line and column. Keys are measured in octets, so characters know their offset in octets too. The
ways to end a line are told apart no longer, but for the two separators of Unicode, which scalars
keep. Control characters other than tab and the ends of lines make a text unreadable.
-/

namespace CardClub.Yaml

/-- A character, with the line and the column it stands in, both from zero. -/
structure Glyph where
  char : Char
  line : Nat
  column : Nat
  /-- The number of octets before it in its line. -/
  offset : Nat
deriving DecidableEq, Repr

def isReadable (c : Char) : Bool :=
  let n := c.toNat
  n == 9 || n == 10 || n == 13 || (0x20 ≤ n && n ≤ 0x7E) || n == 0x85 || (0xA0 ≤ n && n ≤ 0xFFFD) ||
    0x10000 ≤ n

def isBreak (c : Char) : Bool :=
  c == '\n' || c == '\r' || c == '\x85' || c == '\u2028' || c == '\u2029'

namespace Glyph

def breakOf (c : Char) : Char :=
  if c == '\u2028' || c == '\u2029' then c else '\n'

/-- The characters of a text, placed from the given line, column and offset on. -/
def place (line column offset : Nat) : List Char → List Glyph
  | [] => []
  | '\r' :: '\n' :: rest => ⟨'\n', line, column, offset⟩ :: place (line + 1) 0 0 rest
  | c :: rest =>
    if isBreak c then ⟨breakOf c, line, column, offset⟩ :: place (line + 1) 0 0 rest
    else ⟨c, line, column, offset⟩ :: place line (column + 1) (offset + c.utf8Size) rest

/-- The placed characters of a text, if all of them are readable. -/
def ofChars? (cs : List Char) : Option (List Glyph) :=
  if cs.all isReadable then some (place 0 0 0 cs) else none

def isSpace (g : Glyph) : Bool := g.char == ' ' || g.char == '\t'

def isBreak (g : Glyph) : Bool := Yaml.isBreak g.char

def isGap (g : Glyph) : Bool := g.isSpace || g.isBreak

end Glyph

def nextHas (p : Char → Bool) : List Glyph → Bool
  | [] => false
  | g :: _ => p g.char

def atGap : List Glyph → Bool
  | [] => true
  | g :: _ => g.isGap

def atBreak : List Glyph → Bool
  | [] => true
  | g :: _ => g.isBreak

/-- Whether a line begins with three of the given character and a gap. -/
def atTriple (c : Char) : List Glyph → Bool
  | x :: y :: z :: rest => x.column == 0 && x.char == c && y.char == c && z.char == c && atGap rest
  | _ => false

/-- Whether a line begins with the mark that begins or the one that ends a document. -/
def atDocumentMark (gs : List Glyph) : Bool := atTriple '-' gs || atTriple '.' gs

def isLeftOf (column : Nat) : List Glyph → Bool
  | [] => false
  | g :: _ => g.column < column

/-- Whether a character may stand in the name of an anchor, a tag handle or a directive. -/
def isNameChar (c : Char) : Bool := c.isAlphanum || c == '_' || c == '-'

/-- The name at the front of a text, which may be empty, and what follows it. -/
def takeName (gs : List Glyph) : List Char × List Glyph :=
  ((gs.takeWhile fun g => isNameChar g.char).map (·.char), gs.dropWhile fun g => isNameChar g.char)

end CardClub.Yaml
