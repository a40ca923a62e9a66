import CardClub.Numeral
import CardClub.Yaml.Glyph
import CardClub.Yaml.Token

/-!
# Anchors, tags and directives

The tokens that stand before a node and give it a name or a type, and the lines before a document
that say how it is to be read. Each reader returns what follows the token.
-/

namespace CardClub.Yaml

/-! ### Anchors -/

def endsAnchor (gs : List Glyph) : Bool :=
  atGap gs || nextHas (fun c => ['?', ':', ',', ']', '}', '%', '@', '\x60'].contains c) gs

/-- The name of an anchor, after its mark. -/
def anchorName? (gs : List Glyph) : Option (List Char × List Glyph) :=
  let (name, rest) := takeName gs
  if !name.isEmpty && endsAnchor rest then some (name, rest) else none

/-! ### Tags -/

/-- Whether a character may stand in a tag. Commas and brackets may in a tag that is written out. -/
def isTagChar (writtenOut : Bool) (c : Char) : Bool :=
  isNameChar c ||
    [';', '/', '?', ':', '@', '&', '=', '+', '$', '.', '!', '~', '*', '\x27', '(',
      ')'].contains c ||
    (writtenOut && [',', '[', ']'].contains c)

/-- An octet, written as a percent sign and two hexadecimal digits. -/
def octet? : List Glyph → Option (UInt8 × List Glyph)
  | p :: a :: b :: rest =>
    if p.char == '%' then
      ([a, b].mapM fun g => Numeral.hexDigit? g.char).map fun ds =>
        ((Numeral.value 16 ds).toUInt8, rest)
    else none
  | _ => none

/-- The number of octets that follow the first octet of a character. -/
def octetsAfter? (first : UInt8) : Option Nat :=
  if first < 0x80 then some 0
  else if first < 0xC0 then none
  else if first < 0xE0 then some 1
  else if first < 0xF0 then some 2
  else if first < 0xF8 then some 3
  else none

/-- The given number of later octets of a character. -/
def laterOctets? : Nat → List Glyph → Option (List UInt8 × List Glyph)
  | 0, gs => some ([], gs)
  | n + 1, gs =>
    (octet? gs).bind fun (octet, rest) =>
      if 0x80 ≤ octet ∧ octet < 0xC0 then
        (laterOctets? n rest).map fun (octets, rest) => (octet :: octets, rest)
      else none

/-- The octets of what is written as one character. It need not be one. -/
def octets? (gs : List Glyph) : Option (List UInt8 × List Glyph) :=
  (octet? gs).bind fun (first, rest) =>
    (octetsAfter? first).bind fun n =>
      (laterOctets? n rest).map fun (later, rest) => (first :: later, rest)

/-- The octets of a tag, as far as they go. -/
def tagOctets? (writtenOut : Bool) : (fuel : Nat) → List Glyph → Option (List UInt8 × List Glyph)
  | 0, _ => none
  | _ + 1, [] => some ([], [])
  | fuel + 1, g :: rest =>
    if g.char == '%' then
      (octets? (g :: rest)).bind fun (written, rest) =>
        (tagOctets? writtenOut fuel rest).map fun (octets, rest) => (written ++ octets, rest)
    else if isTagChar writtenOut g.char then
      (tagOctets? writtenOut fuel rest).map fun (octets, rest) =>
        (octetsOf [g.char] ++ octets, rest)
    else some ([], g :: rest)

/-- The part of a tag that counts: a zero octet ends it. -/
def uptoZero (octets : List UInt8) : List UInt8 := octets.takeWhile (· != 0)

/-- The octets of a tag that count, where at least one is written. -/
def tagText? (writtenOut : Bool) (gs : List Glyph) : Option (List UInt8 × List Glyph) :=
  (tagOctets? writtenOut (gs.length + 1) gs).bind fun (octets, rest) =>
    if octets.isEmpty then none else some (uptoZero octets, rest)

/-- A tag handle: an exclamation mark and a name, and another such mark where there is one. -/
def tagHandle? : List Glyph → Option (List Char × List Glyph)
  | [] => none
  | g :: rest =>
    if g.char != '!' then none
    else
      let (name, rest) := takeName rest
      if nextHas (· == '!') rest then some ('!' :: name ++ ['!'], rest.drop 1)
      else some ('!' :: name, rest)

/-- A tag in angle brackets, which is written out. -/
def writtenOutTag? (gs : List Glyph) : Option (Token × List Glyph) :=
  (tagText? true gs).bind fun (text, rest) =>
    if nextHas (· == '>') rest then some (.tag [] text, rest.drop 1) else none

/-- A tag that begins with a handle. What follows a lone exclamation mark is all the rest of the
tag, and where nothing does the mark is the tag. -/
def handleTag? (gs : List Glyph) : Option (Token × List Glyph) :=
  (tagHandle? gs).bind fun (handle, rest) =>
    if 1 < handle.length ∧ handle.getLast? = some '!' then
      (tagText? false rest).map fun (text, rest) => (.tag handle text, rest)
    else
      (tagOctets? false (rest.length + 1) rest).map fun (more, rest) =>
        let text := uptoZero (octetsOf (handle.drop 1) ++ more)
        (if text.isEmpty then .tag [] bang else .tag ['!'] text, rest)

/-- A tag, whose exclamation mark comes first. -/
def tag? (inFlow : Bool) (gs : List Glyph) : Option (Token × List Glyph) :=
  let found := if nextHas (· == '<') (gs.drop 1) then writtenOutTag? (gs.drop 2) else handleTag? gs
  found.bind fun (token, rest) =>
    if atGap rest || (inFlow && nextHas (· == ',') rest) then some (token, rest) else none

/-! ### Directives -/

/-- A number of a version: one to nine digits. -/
def versionNumber? (gs : List Glyph) : Option (Nat × List Glyph) :=
  let front := gs.takeWhile fun g => g.char.isDigit
  if 0 < front.length ∧ front.length ≤ 9 then
    some (Numeral.value 10 (front.filterMap fun g => Numeral.decimalDigit? g.char),
      gs.drop front.length)
  else none

/-- The directive of a version, which has to be 1.1 or 1.2. -/
def versionDirective? (gs : List Glyph) : Option (Token × List Glyph) :=
  (versionNumber? (gs.dropWhile Glyph.isSpace)).bind fun (major, rest) =>
    if !nextHas (· == '.') rest then none
    else
      (versionNumber? (rest.drop 1)).bind fun (minor, rest) =>
        if major = 1 ∧ (minor = 1 ∨ minor = 2) then some (.version, rest) else none

/-- The directive of a tag handle and what it stands for. -/
def handleDirective? (gs : List Glyph) : Option (Token × List Glyph) :=
  (tagHandle? (gs.dropWhile Glyph.isSpace)).bind fun (name, rest) =>
    let whole := name.length = 1 ∨ name.getLast? = some '!'
    if ¬whole ∨ !nextHas (fun c => c == ' ' || c == '\t') rest then none
    else
      (tagText? true (rest.dropWhile Glyph.isSpace)).bind fun (front, rest) =>
        if atGap rest then some (.handle name front, rest) else none

/-- A directive, after its percent sign, with the rest of its line. -/
def directive? (gs : List Glyph) : Option (Token × List Glyph) :=
  let (name, rest) := takeName gs
  let found :=
    if !atGap rest then none
    else if name = ['Y', 'A', 'M', 'L'] then versionDirective? rest
    else if name = ['T', 'A', 'G'] then handleDirective? rest
    else none
  found.bind fun (token, rest) =>
    let rest := rest.dropWhile Glyph.isSpace
    let rest := if nextHas (· == '#') rest then rest.dropWhile fun g => !g.isBreak else rest
    if atBreak rest then some (token, rest.drop 1) else none

end CardClub.Yaml
