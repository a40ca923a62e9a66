import CardClub.Numeral
import CardClub.Yaml.Glyph
import CardClub.Yaml.Token

/-!
# The text of scalars

A plain or quoted scalar may run over several lines: a single line break is read as a space, and of
several the first is dropped. A block scalar keeps its lines, or folds them likewise, less the
indentation, and keeps, clips or strips the line breaks at its end. Each reader returns what follows
the scalar, and nothing where the text is not well formed.
-/

namespace CardClub.Yaml

/-- What stands between two words: the blanks before the first line break, and the line breaks. -/
structure Gap where
  blanks : List Char
  breaks : List Char
deriving DecidableEq, Repr

namespace Gap

/-- The gap at the front of a text. -/
def of (gs : List Glyph) : Gap :=
  let run := gs.takeWhile Glyph.isGap
  ⟨(run.takeWhile Glyph.isSpace).map (·.char), (run.filter Glyph.isBreak).map (·.char)⟩

def empty : Gap := ⟨[], []⟩

def isBroken (g : Gap) : Bool := !g.breaks.isEmpty

/-- What a gap is read as. -/
def text (g : Gap) : List Char :=
  match g.breaks with
  | [] => g.blanks
  | ['\n'] => [' ']
  | '\n' :: more => more
  | breaks => breaks

end Gap

/-- What follows the gap at the front of a text. -/
def dropGap (gs : List Glyph) : List Glyph := gs.dropWhile Glyph.isGap

/-! ### Plain scalars -/

def isFlowMark (c : Char) : Bool := c == ',' || c == '[' || c == ']' || c == '{' || c == '}'

/-- A word of a plain scalar, which ends at a gap, at a colon before a gap and, in a flow
collection, at the marks of its frame. There a colon right before such a mark is refused. -/
def plainWord? (inFlow : Bool) : List Glyph → Option (List Char × List Glyph)
  | [] => some ([], [])
  | g :: rest =>
    if g.isGap || (g.char == ':' && atGap rest) then some ([], g :: rest)
    else if inFlow && g.char == ':' && nextHas (fun c => isFlowMark c || c == '?') rest then none
    else if inFlow && isFlowMark g.char then some ([], g :: rest)
    else (plainWord? inFlow rest).map fun (cs, rest) => (g.char :: cs, rest)

/-- The rest of a plain scalar after a gap: its text, whether it ended behind the end of a line, and
what follows. In a block collection the lines of the scalar reach no further left than `floor`. -/
def plainRest? (inFlow : Bool) (floor : Nat) :
    (fuel : Nat) → Gap → List Glyph → Option (List Char × Bool × List Glyph)
  | 0, _, _ => none
  | fuel + 1, gap, gs =>
    if atDocumentMark gs || nextHas (· == '#') gs then some ([], gap.isBroken, gs)
    else
      (plainWord? inFlow gs).bind fun (word, rest) =>
        let text := gap.text ++ word
        let run := rest.takeWhile Glyph.isGap
        let after := dropGap rest
        if word.isEmpty then some ([], gap.isBroken, gs)
        else if run.isEmpty then some (text, false, rest)
        else if (run.dropWhile fun g => !g.isBreak).any fun g =>
            g.char == '\t' && g.column < floor then none
        else if !inFlow && isLeftOf floor after then some (text, (Gap.of rest).isBroken, after)
        else
          (plainRest? inFlow floor fuel (Gap.of rest) after).map fun (more, broken, rest) =>
            (text ++ more, broken, rest)

/-- A plain scalar: its text, whether it ended behind the end of a line, and what follows. -/
def plain? (inFlow : Bool) (floor : Nat) (gs : List Glyph) :
    Option (List Char × Bool × List Glyph) :=
  plainRest? inFlow floor (gs.length + 1) .empty gs

/-! ### Quoted scalars -/

/-- The character that a letter after a backslash stands for. -/
def escaped? (c : Char) : Option Char :=
  match c with
  | '0' => some '\x00'
  | 'a' => some '\x07'
  | 'b' => some '\x08'
  | 't' => some '\t'
  | '\t' => some '\t'
  | 'n' => some '\n'
  | 'v' => some '\x0b'
  | 'f' => some '\x0c'
  | 'r' => some '\r'
  | 'e' => some '\x1b'
  | ' ' => some ' '
  | '\x22' => some '\x22'
  | '/' => some '/'
  | '\\' => some '\\'
  | 'N' => some '\x85'
  | '_' => some '\xa0'
  | 'L' => some '\u2028'
  | 'P' => some '\u2029'
  | _ => none

/-- How many hexadecimal digits follow a letter after a backslash. -/
def escapeWidth? (c : Char) : Option Nat :=
  match c with
  | 'x' => some 2
  | 'u' => some 4
  | 'U' => some 8
  | _ => none

/-- The character of a code point, which is not a surrogate. -/
def charOf? (n : Nat) : Option Char :=
  if n.isValidChar then some (Char.ofNat n) else none

/-- The number that exactly `width` hexadecimal digits spell. -/
def hexNumber? (width : Nat) (gs : List Glyph) : Option (Nat × List Glyph) :=
  let front := gs.take width
  if front.length = width then
    (front.mapM fun g => Numeral.hexDigit? g.char).map fun ds =>
      (Numeral.value 16 ds, gs.drop width)
  else none

/-- The character that the text after a backslash spells. -/
def escape? : List Glyph → Option (Char × List Glyph)
  | [] => none
  | g :: rest =>
    match escaped? g.char with
    | some c => some (c, rest)
    | none =>
      (escapeWidth? g.char).bind fun width =>
        (hexNumber? width rest).bind fun (n, rest) => (charOf? n).map fun c => (c, rest)

/-- The rest of a quoted scalar, up to its closing quote. A single quote is written twice inside of
single quotes; backslashes have meaning inside of double quotes. -/
def quotedRest? (quote : Char) : (fuel : Nat) → List Glyph → Option (List Char × List Glyph)
  | 0, _ => none
  | _ + 1, [] => none
  | fuel + 1, g :: rest =>
    if atDocumentMark (g :: rest) then none
    else if g.isGap then
      (quotedRest? quote fuel (dropGap (g :: rest))).map fun (cs, after) =>
        ((Gap.of (g :: rest)).text ++ cs, after)
    else if g.char == quote then
      if quote == '\x27' && nextHas (· == '\x27') rest then
        (quotedRest? quote fuel (rest.drop 1)).map fun (cs, after) => ('\x27' :: cs, after)
      else some ([], rest)
    else if g.char == '\\' && quote == '\x22' then
      if nextHas isBreak rest then
        (quotedRest? quote fuel (dropGap rest)).map fun (cs, after) =>
          ((Gap.of (rest.drop 1)).breaks ++ cs, after)
      else
        (escape? rest).bind fun (c, rest) =>
          (quotedRest? quote fuel rest).map fun (cs, after) => (c :: cs, after)
    else (quotedRest? quote fuel rest).map fun (cs, after) => (g.char :: cs, after)

/-- A quoted scalar, whose opening quote comes first. -/
def quoted? : List Glyph → Option (List Char × List Glyph)
  | [] => none
  | g :: rest => quotedRest? g.char (rest.length + 1) rest

/-! ### Block scalars -/

/-- What becomes of the line breaks at the end of a block scalar. -/
inductive Chomp where
  | strip
  | clip
  | keep
deriving DecidableEq, Repr

/-- The sign that tells what becomes of the line breaks at the end. -/
def chomp? : List Glyph → Option (Chomp × List Glyph)
  | [] => none
  | g :: rest =>
    if g.char == '+' then some (.keep, rest)
    else if g.char == '-' then some (.strip, rest)
    else none

/-- The digit that tells how far a block scalar is indented. Zero is refused. -/
def indentDigit? : List Glyph → Option (Option Nat × List Glyph)
  | [] => some (none, [])
  | g :: rest =>
    match Numeral.decimalDigit? g.char with
    | none => some (none, g :: rest)
    | some 0 => none
    | some d => some (some d, rest)

/-- The sign and the digit of a block scalar, in either order and each at will. -/
def blockSigns? (gs : List Glyph) : Option (Chomp × Option Nat × List Glyph) :=
  match chomp? gs with
  | some (chomp, rest) => (indentDigit? rest).map fun (digit, rest) => (chomp, digit, rest)
  | none =>
    (indentDigit? gs).map fun (digit, rest) =>
      match digit, chomp? rest with
      | some _, some (chomp, rest) => (chomp, digit, rest)
      | _, _ => (.clip, digit, rest)

/-- The empty lines at the front of a block scalar's text: their breaks, the widest indentation
seen, and what follows the indentation of the next line. An indentation of zero is not known yet. -/
def emptyLines? (indent : Nat) :
    (fuel widest : Nat) → List Glyph → Option (List Char × Nat × List Glyph)
  | 0, _, _ => none
  | fuel + 1, widest, gs =>
    let inside := fun g : Glyph => indent == 0 || g.column < indent
    match gs.dropWhile fun g => g.char == ' ' && inside g with
    | [] => some ([], widest, [])
    | g :: rest =>
      let widest := max widest g.column
      if g.char == '\t' && inside g then none
      else if g.isBreak then
        (emptyLines? indent fuel widest rest).map fun (breaks, widest, rest) =>
          (g.char :: breaks, widest, rest)
      else some ([], widest, g :: rest)

/-- The lines of a block scalar that are not empty, each behind the break that ended the last one
and the empty lines since, and at the end the break and the empty lines that are left. -/
def blockLines? (style : Style) (indent : Nat) : (fuel : Nat) → (spaced : Bool) →
    (last empty : List Char) → List Glyph → Option (List Char × List Char × List Char × List Glyph)
  | 0, _, _, _, _ => none
  | _ + 1, _, last, empty, [] => some ([], last, empty, [])
  | fuel + 1, spaced, last, empty, g :: rest =>
    if g.column ≠ indent then some ([], last, empty, g :: rest)
    else
      let joint :=
        if style == .folded && last == ['\n'] && !spaced && !g.isSpace then
          if empty.isEmpty then [' '] else []
        else last
      let line := (g :: rest).takeWhile fun g => !g.isBreak
      let after := (g :: rest).dropWhile fun g => !g.isBreak
      (emptyLines? indent (after.length + 1) 0 (after.drop 1)).bind fun (next, _, below) =>
        (blockLines? style indent fuel g.isSpace ((after.take 1).map (·.char)) next below).map
          fun (text, ends) => (joint ++ empty ++ line.map (·.char) ++ text, ends)

/-- A block scalar, after the mark that tells its style. Its lines stand deeper than the collection
around it, whose entries stand in column `floor - 1`. -/
def block? (style : Style) (floor : Nat) (gs : List Glyph) : Option (List Char × List Glyph) :=
  (blockSigns? gs).bind fun (chomp, digit, rest) =>
    let rest := rest.dropWhile Glyph.isSpace
    let rest := if nextHas (· == '#') rest then rest.dropWhile fun g => !g.isBreak else rest
    if !atBreak rest then none
    else
      let given := match digit with
        | some d => floor - 1 + d
        | none => 0
      (emptyLines? given (rest.length + 1) 0 (rest.drop 1)).bind fun (empty, widest, rest) =>
        let indent := if given = 0 then max widest (max floor 1) else given
        (blockLines? style indent (rest.length + 1) false [] empty rest).map
          fun (text, last, empty, rest) =>
            let ending := match chomp with
              | .strip => []
              | .clip => last
              | .keep => last ++ empty
            (text ++ ending, rest)

end CardClub.Yaml
