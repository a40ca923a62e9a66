import CardClub.Yaml.Node
import CardClub.Yaml.Tokens

/-!
# The document of a text

The tokens of a text are put together to the nodes of one document. Where a key, a value or an item
is left out, nothing is written there. A text with more than one document is refused, and one with
none reads as a document without content.
-/

namespace CardClub.Yaml

/-- A document that is put together in part. -/
structure Building where
  /-- The tokens that are left. -/
  rest : List Token
  /-- What the tag handles of the document stand for. -/
  handles : List (List Char × List UInt8) := []
  /-- The numbers of the anchors' names. -/
  names : List (List Char × Nat) := []
  /-- The anchored nodes in the order of their beginnings, blank until they are complete. -/
  anchored : Array (Nat × Node) := #[]

abbrev Build := StateT Building Option

namespace Build

def peek : Build (Option Token) := do return (← get).rest.head?

def skip : Build Unit := modify fun b => { b with rest := b.rest.drop 1 }

/-- Passes over the next token if it is the given one, and tells whether it was. -/
def accept (t : Token) : Build Bool := do
  if (← peek) = some t then skip; return true
  else return false

def expect (t : Token) : Build Unit := do
  if !(← accept t) then failure

/-- Reads a node, or finds that nothing is written before one of the given tokens. -/
def orBlank (stops : List Token) (read : Build Node) : Build Node := do
  match ← peek with
  | some t => if stops.contains t then return .blank none else read
  | none => read

/-- The handles that need no directive. -/
def standardHandles : List (List Char × List UInt8) :=
  [(['!'], bang), (['!', '!'], octetsOf "tag:yaml.org,2002:".toList)]

/-- The tag that a handle and the rest of a tag make. -/
def tagOf (handle : List Char) (rest : List UInt8) : Build (List UInt8) := do
  if handle.isEmpty then return rest
  match ((← get).handles ++ standardHandles).lookup handle with
  | some front => return front ++ rest
  | none => failure

def tag? : Build (Option (List UInt8)) := do
  match ← peek with
  | some (.tag handle rest) => skip; return some (← tagOf handle rest)
  | _ => return none

def anchor? : Build (Option (List Char)) := do
  match ← peek with
  | some (.anchor name) => skip; return some name
  | _ => return none

def properties : Build (Option (List Char) × Option (List UInt8)) := do
  match ← anchor? with
  | some name => return (some name, ← tag?)
  | none =>
    let tag ← tag?
    return (← anchor?, tag)

/-- Begins an anchored node, and tells its place among them. An anchor has as its number how many
names were given before. A name that is given once more is none the more for it, so a later anchor
can come to the same number. -/
def declare (name : List Char) : Build Nat :=
  modifyGet fun b =>
    let number := b.names.length
    (b.anchored.size,
      { b with
        names := (name, number) :: b.names.filter (·.1 ≠ name)
        anchored := b.anchored.push (number, .blank none) })

/-- Completes an anchored node. -/
def keep (place : Option Nat) (node : Node) : Build Node := do
  match place with
  | some place =>
    modify fun b => { b with anchored := b.anchored.modify place fun entry => (entry.1, node) }
  | none => pure ()
  return node

/-- The node that an alias refers to by name. -/
def aliasOf (name : List Char) : Build Node := do
  match (← get).names.lookup name with
  | some number => return .alias number
  | none => failure

mutual

/-- A node. Block collections begin only where `inBlock`, and the entries of a sequence that has no
indentation of its own only where `unindented`. -/
def node (inBlock unindented : Bool) : (fuel : Nat) → Build Node
  | 0 => failure
  | fuel + 1 => do
    match ← peek with
    | some (.alias name) => skip; aliasOf name
    | _ =>
      let (anchor, tag) ← properties
      let place ← anchor.mapM declare
      let found ← content inBlock unindented (anchor.isSome || tag.isSome) tag fuel
      keep place found

/-- What a node holds, which is nothing only behind properties. An exclamation mark alone says
nothing of a scalar. -/
def content (inBlock unindented mayBeBlank : Bool) (tag : Option (List UInt8)) :
    (fuel : Nat) → Build Node
  | 0 => failure
  | fuel + 1 => do
    match ← peek with
    | some (.scalar style text) => skip; return .scalar style (tag.filter (· ≠ bang)) text
    | some .flowSequenceStart => skip; return .sequence (← flowItems true fuel)
    | some .flowMappingStart => skip; return .mapping (← flowEntries true fuel)
    | some .blockSequenceStart =>
      if inBlock then skip; return .sequence (← blockItems fuel)
      else if mayBeBlank then return .blank tag else failure
    | some .blockMappingStart =>
      if inBlock then skip; return .mapping (← blockEntries fuel)
      else if mayBeBlank then return .blank tag else failure
    | some .blockEntry =>
      if unindented then return .sequence (← unindentedItems fuel)
      else if mayBeBlank then return .blank tag else failure
    | _ => if mayBeBlank then return .blank tag else failure

def blockItems : (fuel : Nat) → Build (List Node)
  | 0 => failure
  | fuel + 1 => do
    if ← accept .blockEnd then return []
    expect .blockEntry
    let item ← orBlank [.blockEntry, .blockEnd] (node true false fuel)
    return item :: (← blockItems fuel)

/-- The items of a block sequence as a value in the column of its key, where no token ends it. -/
def unindentedItems : (fuel : Nat) → Build (List Node)
  | 0 => failure
  | fuel + 1 => do
    if !(← accept .blockEntry) then return []
    let item ← orBlank [.blockEntry, .key, .value, .blockEnd] (node true false fuel)
    return item :: (← unindentedItems fuel)

def blockEntries : (fuel : Nat) → Build (List (Node × Node))
  | 0 => failure
  | fuel + 1 => do
    if ← accept .blockEnd then return []
    expect .key
    let key ← orBlank [.key, .value, .blockEnd] (node true true fuel)
    let value ←
      if ← accept .value then orBlank [.key, .value, .blockEnd] (node true true fuel)
      else pure (.blank none)
    return (key, value) :: (← blockEntries fuel)

def flowItems (first : Bool) : (fuel : Nat) → Build (List Node)
  | 0 => failure
  | fuel + 1 => do
    if ← accept .flowSequenceEnd then return []
    if !first then expect .flowEntry
    if ← accept .key then
      let pair ← flowPair fuel
      return .mapping [pair] :: (← flowItems false fuel)
    if ← accept .flowSequenceEnd then return []
    let item ← node false false fuel
    return item :: (← flowItems false fuel)

/-- A key and a value as an item of a flow sequence. Where the key is left out, the token behind it
is passed over. -/
def flowPair : (fuel : Nat) → Build (Node × Node)
  | 0 => failure
  | fuel + 1 => do
    let key ←
      if [some .value, some .flowEntry, some .flowSequenceEnd].contains (← peek) then
        skip; pure (.blank none)
      else node false false fuel
    let value ←
      if ← accept .value then orBlank [.flowEntry, .flowSequenceEnd] (node false false fuel)
      else pure (.blank none)
    return (key, value)

/-- The entries of a flow mapping. A key may come without its mark, and then has no value. -/
def flowEntries (first : Bool) : (fuel : Nat) → Build (List (Node × Node))
  | 0 => failure
  | fuel + 1 => do
    if ← accept .flowMappingEnd then return []
    if !first then expect .flowEntry
    if ← accept .key then
      let key ← orBlank [.value, .flowEntry, .flowMappingEnd] (node false false fuel)
      let value ←
        if ← accept .value then orBlank [.flowEntry, .flowMappingEnd] (node false false fuel)
        else pure (.blank none)
      return (key, value) :: (← flowEntries false fuel)
    if ← accept .flowMappingEnd then return []
    let key ← node false false fuel
    return (key, .blank none) :: (← flowEntries false fuel)

end

/-- The directives before a document: a version at most once, and each handle at most once. -/
def directives (version : Bool) : (fuel : Nat) → Build Unit
  | 0 => failure
  | fuel + 1 => do
    match ← peek with
    | some .version => if version then failure else skip; directives true fuel
    | some (.handle name front) =>
      if ((← get).handles.lookup name).isSome then failure
      else
        modify fun b => { b with handles := (name, front) :: b.handles }
        skip
        directives version fuel
    | _ => return ()

/-- Whether the content of a document ends before a token. -/
def endsDocument : Option Token → Bool
  | none => true
  | some .version => true
  | some (.handle _ _) => true
  | some .documentStart => true
  | some .documentEnd => true
  | _ => false

/-- The only document of a text. Directives need a mark that begins the document after them. -/
def document (fuel : Nat) : Build Node := do
  match ← peek with
  | none => return .blank none
  | first =>
    if endsDocument first && first ≠ some .documentEnd then
      directives false fuel
      expect .documentStart
      let next ← peek
      if endsDocument next then return .blank none else node true false fuel
    else node true false fuel

end Build

namespace Document

/-- The document that tokens make, all of which it takes but for marks that end it. -/
def ofTokens? (tokens : List Token) : Option Document :=
  ((Build.document (3 * tokens.length + 3)).run { rest := tokens }).bind fun (root, b) =>
    if b.rest.all (· == .documentEnd) then
      some { root, anchored := b.anchored.toList.reverse } else none

def ofText? (s : String) : Option Document :=
  ((Glyph.ofChars? s.toList).bind tokens?).bind ofTokens?

end Document

end CardClub.Yaml
