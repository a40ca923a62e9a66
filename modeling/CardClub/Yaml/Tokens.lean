import CardClub.Yaml.Glyph
import CardClub.Yaml.Property
import CardClub.Yaml.Scalar
import CardClub.Yaml.Token

/-!
# The tokens of a text

The text is read from left to right. Block collections begin where an entry stands deeper than the
collection around it, and end where a line stands less deep. A colon may show that a key began
earlier on its line: wherever one could have begun, the place is kept, and the token that announces
the key is put in there once the colon is seen.
-/

namespace CardClub.Yaml

/-- A place at which a key may have begun. -/
structure KeyPlace where
  /-- Whether only a key can stand there, as it is in the column of a block mapping's entries. -/
  required : Bool
  /-- How many tokens come before the key. -/
  before : Nat
  line : Nat
  column : Nat
  /-- The number of octets before it in its line. -/
  offset : Nat
deriving DecidableEq, Repr

/-- A text that is read in part. -/
structure Reading where
  /-- What is left of the text. -/
  rest : List Glyph
  /-- The tokens read so far. -/
  tokens : Array Token
  /-- One more than the column of the innermost block collection's entries; zero outside of all. -/
  floor : Nat
  /-- The same of the block collections around it, from the inside out. -/
  floors : List Nat
  /-- Where the key of the next colon may have begun. -/
  keyPlace : Option KeyPlace
  /-- The same of the collections around the open flow collections, from the inside out. -/
  keyPlaces : List (Option KeyPlace)
  /-- Whether a key may begin at the next token. -/
  keyAllowed : Bool
deriving Repr

namespace Reading

/-- A text of which nothing has been read. -/
def start (gs : List Glyph) : Reading := ⟨gs, #[], 0, [], none, [], true⟩

def inFlow (r : Reading) : Bool := !r.keyPlaces.isEmpty

/-- The text with one more token read. -/
def put (r : Reading) (t : Token) : Reading := { r with tokens := r.tokens.push t }

/-- The text with a token put in before the last ones. -/
def insert (r : Reading) (before : Nat) (t : Token) : Reading :=
  { r with tokens := r.tokens.insertIdxIfInBounds before t }

/-- The text with the given number of characters passed over. -/
def pass (r : Reading) (n : Nat) : Reading := { r with rest := r.rest.drop n }

/-- The text with keys allowed at the next token, or not. -/
def allowKey (r : Reading) (allowed : Bool) : Reading := { r with keyAllowed := allowed }

/-! ### Blanks and comments -/

/-- What follows blanks, comments and empty lines, and whether a key is allowed there. Tabs are
blanks where no key can begin. -/
def skip (inFlow : Bool) : (fuel : Nat) → (allowed : Bool) → List Glyph → List Glyph × Bool
  | 0, allowed, gs => (gs, allowed)
  | fuel + 1, allowed, gs =>
    let gs := match gs with
      | g :: rest => if g.column = 0 ∧ g.char = '\ufeff' then rest else g :: rest
      | [] => []
    let gs := gs.dropWhile fun g => g.char == ' ' || (g.char == '\t' && (inFlow || !allowed))
    let gs := if nextHas (· == '#') gs then gs.dropWhile fun g => !g.isBreak else gs
    match gs with
    | [] => ([], allowed)
    | g :: rest =>
      if g.isBreak then skip inFlow fuel (allowed || !inFlow) rest else (g :: rest, allowed)

/-- Passes over blanks, comments and empty lines. -/
def toNextToken (r : Reading) : Reading :=
  let (rest, keyAllowed) := skip r.inFlow (r.rest.length + 1) r.keyAllowed r.rest
  { r with rest, keyAllowed }

/-! ### Places of keys -/

/-- A key is of one line and of at most 1024 octets, so a place that is too far back is forgotten.
It must not be one where only a key can stand. -/
def forgetPlace? (here : Glyph) (place : Option KeyPlace) : Option (Option KeyPlace) :=
  match place with
  | none => some none
  | some p =>
    if p.line < here.line || p.offset + 1024 < here.offset then
      if p.required then none else some none
    else some (some p)

/-- Forgets all places that are too far back. -/
def forgetPlaces? (r : Reading) : Option Reading :=
  match r.rest with
  | [] => some r
  | here :: _ =>
    (forgetPlace? here r.keyPlace).bind fun keyPlace =>
      (r.keyPlaces.mapM (forgetPlace? here)).map fun keyPlaces => { r with keyPlace, keyPlaces }

/-- Gives up the place of a key, which must not be one where only a key can stand. -/
def dropPlace? (r : Reading) : Option Reading :=
  match r.keyPlace with
  | some p => if p.required then none else some { r with keyPlace := none }
  | none => some r

/-- Keeps the next token's place, if a key may begin there. -/
def keepPlace? (r : Reading) : Option Reading :=
  match r.rest with
  | [] => some r
  | here :: _ =>
    if r.keyAllowed then
      r.dropPlace?.map fun r =>
        let required := !r.inFlow && r.floor == here.column + 1
        { r with keyPlace := some ⟨required, r.tokens.size, here.line, here.column, here.offset⟩ }
    else some r

/-! ### Block collections -/

/-- Ends block collections until the innermost reaches no deeper than `floor`. -/
def closeFrom (floor : Nat) (tokens : Array Token) (current : Nat) :
    List Nat → Array Token × Nat × List Nat
  | [] => (tokens, current, [])
  | outer :: floors =>
    if floor < current then closeFrom floor (tokens.push .blockEnd) outer floors
    else (tokens, current, outer :: floors)

/-- Ends the block collections that are deeper than `floor`. In a flow collection there is none to
end. -/
def close (r : Reading) (floor : Nat) : Reading :=
  if r.inFlow then r
  else
    let (tokens, floor, floors) := closeFrom floor r.tokens r.floor r.floors
    { r with tokens, floor, floors }

/-- Begins a block collection in a column that is deeper than the innermost one. Its token comes
after the given number of tokens. -/
def openAt (r : Reading) (column before : Nat) (t : Token) : Reading :=
  if !r.inFlow && r.floor < column + 1 then
    { r.insert before t with floor := column + 1, floors := r.floor :: r.floors }
  else r

def column (r : Reading) : Nat :=
  match r.rest with
  | g :: _ => g.column
  | [] => 0

/-! ### Tokens -/

/-- Ends everything that is open in front of a line that belongs to no collection. -/
def leave? (r : Reading) : Option Reading := ((r.close 0).dropPlace?).map (·.allowKey false)

def directive? (r : Reading) : Option Reading :=
  r.leave?.bind fun r =>
    (Yaml.directive? (r.rest.drop 1)).map fun (token, rest) => { r.put token with rest }

def documentMark? (r : Reading) (t : Token) : Option Reading :=
  r.leave?.map fun r => (r.put t).pass 3

/-- The beginning of a flow collection, which may be all of a key. -/
def openFlow? (r : Reading) (t : Token) : Option Reading :=
  r.keepPlace?.map fun r =>
    let r := { r with keyPlace := none, keyPlaces := r.keyPlace :: r.keyPlaces, keyAllowed := true }
    (r.put t).pass 1

def closeFlow? (r : Reading) (t : Token) : Option Reading :=
  r.dropPlace?.map fun r =>
    let r := match r.keyPlaces with
      | outer :: keyPlaces => { r with keyPlace := outer, keyPlaces }
      | [] => r
    ((r.allowKey false).put t).pass 1

def flowEntry? (r : Reading) : Option Reading :=
  r.dropPlace?.map fun r => ((r.allowKey true).put .flowEntry).pass 1

def blockEntry? (r : Reading) : Option Reading :=
  if !r.inFlow && !r.keyAllowed then none
  else
    (r.openAt r.column r.tokens.size .blockSequenceStart).dropPlace?.map fun r =>
      ((r.allowKey true).put .blockEntry).pass 1

def key? (r : Reading) : Option Reading :=
  if !r.inFlow && !r.keyAllowed then none
  else
    (r.openAt r.column r.tokens.size .blockMappingStart).dropPlace?.map fun r =>
      ((r.allowKey !r.inFlow).put .key).pass 1

/-- The colon before a value. Where a key may have begun, one did. -/
def value? (r : Reading) : Option Reading :=
  match r.keyPlace with
  | some p =>
    let r := (r.insert p.before .key).openAt p.column p.before .blockMappingStart
    some (({ r with keyPlace := none, keyAllowed := false }.put .value).pass 1)
  | none =>
    if !r.inFlow && !r.keyAllowed then none
    else
      let r := r.openAt r.column r.tokens.size .blockMappingStart
      some (((r.allowKey !r.inFlow).put .value).pass 1)

/-- A token that may begin a key. -/
def word? (r : Reading) (read : List Glyph → Option (Token × List Glyph)) : Option Reading :=
  r.keepPlace?.bind fun r =>
    (read r.rest).map fun (token, rest) => { (r.allowKey false).put token with rest }

def named? (r : Reading) (token : List Char → Token) : Option Reading :=
  r.word? fun gs => (anchorName? (gs.drop 1)).map fun (name, rest) => (token name, rest)

def quoted? (r : Reading) : Option Reading :=
  r.word? fun gs => (Yaml.quoted? gs).map fun (text, rest) => (.scalar .quoted text, rest)

def block? (r : Reading) (style : Style) : Option Reading :=
  r.dropPlace?.bind fun r =>
    (Yaml.block? style r.floor (r.rest.drop 1)).map fun (text, rest) =>
      { (r.allowKey true).put (.scalar style text) with rest }

/-- A plain scalar. A key may follow where it ended behind the end of a line. -/
def plain? (r : Reading) : Option Reading :=
  r.keepPlace?.bind fun r =>
    (Yaml.plain? r.inFlow r.floor r.rest).map fun (text, broken, rest) =>
      { (r.allowKey broken).put (.scalar .plain text) with rest }

/-- The characters that begin a token of another kind than a plain scalar. -/
def indicators : List Char :=
  ['-', '?', ':', ',', '[', ']', '{', '}', '#', '&', '*', '!', '|', '>', '\x27', '\x22', '%', '@',
  '\x60']

/-- Whether a plain scalar may begin with a character before the rest of a text. A tab that was not
passed over stands where it may not. -/
def beginsPlain (inFlow : Bool) (g : Glyph) (rest : List Glyph) : Bool :=
  (!g.isGap && !indicators.contains g.char) || g.char == '-' ||
    (!inFlow && (g.char == '?' || g.char == ':') && !atGap rest)

def token? (r : Reading) (g : Glyph) (rest : List Glyph) : Option Reading :=
  if g.column == 0 && g.char == '%' then r.directive?
  else if atTriple '-' (g :: rest) then r.documentMark? .documentStart
  else if atTriple '.' (g :: rest) then r.documentMark? .documentEnd
  else if g.char == '[' then r.openFlow? .flowSequenceStart
  else if g.char == '{' then r.openFlow? .flowMappingStart
  else if g.char == ']' then r.closeFlow? .flowSequenceEnd
  else if g.char == '}' then r.closeFlow? .flowMappingEnd
  else if g.char == ',' then r.flowEntry?
  else if g.char == '-' && atGap rest then r.blockEntry?
  else if g.char == '?' && (r.inFlow || atGap rest) then r.key?
  else if g.char == ':' && (r.inFlow || atGap rest) then r.value?
  else if g.char == '*' then r.named? .alias
  else if g.char == '&' then r.named? .anchor
  else if g.char == '!' then r.word? (tag? r.inFlow)
  else if g.char == '|' && !r.inFlow then r.block? .literal
  else if g.char == '>' && !r.inFlow then r.block? .folded
  else if g.char == '\x27' || g.char == '\x22' then r.quoted?
  else if beginsPlain r.inFlow g rest then r.plain?
  else none

def finish? : (fuel : Nat) → Reading → Option (List Token)
  | 0, _ => none
  | fuel + 1, r =>
    r.toNextToken.forgetPlaces?.bind fun r =>
      match r.rest with
      | [] => r.leave?.map fun r => r.tokens.toList
      | g :: rest => ((r.close (g.column + 1)).token? g rest).bind (finish? fuel)

end Reading

/-- The tokens of a text, if it is well formed as far as they go. -/
def tokens? (gs : List Glyph) : Option (List Token) :=
  Reading.finish? (gs.length + 1) (Reading.start gs)

end CardClub.Yaml
