import Lifecycle.Json.Quoted
import Lifecycle.Yaml.Text
import Lifecycle.Yaml.Token

/-!
# Scalars in a YAML text

Reads the scalar at the front of a text in each of its spellings: plain, quoted,
and as an indented block. Within plain and quoted scalars a line break with the
blanks around it is folded: a single one means a space, further ones stand for
themselves.
-/

namespace Lifecycle.Yaml

/-- Marks that have a meaning inside brackets and braces. -/
def isFlowMark (c : Char) : Bool :=
  c == ',' || c == '[' || c == ']' || c == '\x7b' || c == '\x7d'

/-- What stands between two words of a scalar. -/
structure Gap where
  /-- What the blanks and line breaks mean. -/
  text : List Char
  /-- Whether there is a line break. -/
  broken : Bool
  /-- What follows. -/
  rest : Text

namespace Gap

/-- Line breaks after a first one, blanks around them dropped; no tab may stand where the scalar's
lines are indented. -/
def breaks (indent : Nat) : Text → Option (List Char × Text)
  | [] => some ([], [])
  | g :: rest =>
    if isBreak g.char then do
      let (more, rest) ← breaks indent rest
      return (g.char :: more, rest)
    else if g.char == '\t' && g.column < indent then none
    else if isBlank g.char then breaks indent rest
    else some ([], g :: rest)

/-- The meaning of a line break that others may follow. -/
def fold (first : Char) (more : List Char) : List Char :=
  if first ≠ '\n' then first :: more else if more.isEmpty then [' '] else more

/-- The gap at the front of a text. -/
def read? (indent : Nat) (t : Text) : Option Gap :=
  match t.span isBlank with
  | (blanks, []) => some ⟨blanks, false, []⟩
  | (blanks, g :: rest) =>
    if isBreak g.char then do
      let (more, rest) ← breaks indent rest
      return ⟨fold g.char more, true, rest⟩
    else some ⟨blanks, false, g :: rest⟩

end Gap

namespace Plain

/-- The word at the front of a text: it ends before a space, before a colon that a space follows
and, in a flow collection, before its marks. There a colon directly before a mark is an error. -/
def word (inFlow : Bool) : Text → Option (List Char × Text)
  | [] => some ([], [])
  | g :: rest =>
    if isSpace g.char then some ([], g :: rest)
    else if inFlow && g.char == ':' && (Text.first? rest).any fun c => c == '?' || isFlowMark c then
      none
    else if g.char == ':' && Text.startsSpace rest || inFlow && isFlowMark g.char then
      some ([], g :: rest)
    else do
      let (more, rest) ← word inFlow rest
      return (g.char :: more, rest)

/-- Further words, whether a line break comes after the last of them, and what follows. In a block
collection a line that is indented too little ends the scalar. -/
def words (inFlow : Bool) (indent : Nat) : Nat → Text → Option (List Char × Bool × Text)
  | 0, t => some ([], false, t)
  | fuel + 1, t =>
    if t.first?.all (!isSpace ·) then some ([], false, t)
    else do
      let gap ← Gap.read? indent t
      if (!inFlow && gap.rest.head?.any (·.column < indent)) || gap.rest.startsMark
          || gap.rest.first? = some '#' then
        return ([], gap.broken, gap.rest)
      let (next, rest) ← word inFlow gap.rest
      if next.isEmpty then return ([], gap.broken, gap.rest)
      let (more, broken, rest) ← words inFlow indent fuel rest
      return (gap.text ++ next ++ more, broken, rest)

/-- The plain scalar at the front of a text whose lines are indented at least so much. -/
def read? (inFlow : Bool) (indent : Nat) (t : Text) : Option (List Char × Bool × Text) := do
  let (first, rest) ← word inFlow t
  let (more, broken, rest) ← words inFlow indent rest.length rest
  return (first ++ more, broken, rest)

end Plain

namespace Quoted

/-- Whether single or double quotes enclose the scalar. -/
inductive Kind where
  /-- Single quotes, which may only be doubled inside. -/
  | single
  /-- Double quotes, with escapes inside. -/
  | double
  deriving DecidableEq, Repr

/-- The quote itself. -/
def Kind.mark : Kind → Char
  | .single => '\x27'
  | .double => '"'

/-- The character of a one-letter escape. -/
def escape? (c : Char) : Option Char :=
  if c = '0' then some '\x00'
  else if c = 'a' then some '\x07'
  else if c = 'b' then some '\x08'
  else if c = 't' ∨ c = '\t' then some '\t'
  else if c = 'n' then some '\n'
  else if c = 'v' then some '\x0b'
  else if c = 'f' then some '\x0c'
  else if c = 'r' then some '\r'
  else if c = 'e' then some '\x1b'
  else if c = ' ' ∨ c = '"' ∨ c = '/' ∨ c = '\\' then some c
  else if c = 'N' then some '\u0085'
  else if c = '_' then some '\u00a0'
  else if c = 'L' then some '\u2028'
  else if c = 'P' then some '\u2029'
  else none

/-- How many hexadecimal digits follow an escape. -/
def escapeWidth? (c : Char) : Option Nat :=
  if c = 'x' then some 2 else if c = 'u' then some 4 else if c = 'U' then some 8 else none

/-- Text in single quotes up to a space or a quote that is not doubled. -/
def single : Text → List Char × Text
  | [] => ([], [])
  | g :: rest =>
    if isSpace g.char then ([], g :: rest)
    else if g.char = '\x27' then
      match rest with
      | h :: rest =>
        if h.char = '\x27' then
          let (more, rest) := single rest
          (h.char :: more, rest)
        else ([], g :: h :: rest)
      | [] => ([], [g])
    else
      let (more, rest) := single rest
      (g.char :: more, rest)

/-- Text in double quotes up to a space, a quote or an escaped line break. In the middle of an
escape so many digits are still to come after the given code. -/
def double (digits code : Nat) : Text → Option (List Char × Text)
  | [] => if digits = 0 then some ([], []) else none
  | g :: rest =>
    match digits with
    | digits + 1 => do
      let code := 16 * code + (← Json.Quoted.hexValue? g.char)
      if digits ≠ 0 then double digits code rest
      else
        guard (decide code.isValidChar)
        let (more, rest) ← double 0 0 rest
        return (Char.ofNat code :: more, rest)
    | 0 =>
      if isSpace g.char || g.char == '"' then some ([], g :: rest)
      else if g.char ≠ '\\' then do
        let (more, rest) ← double 0 0 rest
        return (g.char :: more, rest)
      else
        match rest with
        | [] => none
        | e :: rest =>
          if isBreak e.char then some ([], g :: e :: rest)
          else
            match escape? e.char with
            | some c => do
              let (more, rest) ← double 0 0 rest
              return (c :: more, rest)
            | none => do double (← escapeWidth? e.char) 0 rest

/-- The quoted scalar at the front of a text, its opening quote taken. An escaped line break and
the blanks around it mean nothing. -/
def pieces (kind : Kind) : Nat → Text → Option (List Char × Text)
  | 0, _ => none
  | fuel + 1, t => do
    guard !t.startsMark
    let (piece, t) ← match kind with
      | .single => some (single t)
      | .double => double 0 0 t
    let g :: rest := t | none
    if g.char = kind.mark then return (piece, rest)
    if g.char = '\\' then
      let (breaks, rest) ← Gap.breaks 0 (rest.drop 1)
      let (more, rest) ← pieces kind fuel rest
      return (piece ++ breaks ++ more, rest)
    let gap ← Gap.read? 0 t
    let (more, rest) ← pieces kind fuel gap.rest
    return (piece ++ gap.text ++ more, rest)

/-- The quoted scalar at the front of a text, its opening quote taken. -/
def read? (kind : Kind) (t : Text) : Option (List Char × Text) := pieces kind (t.length + 1) t

end Quoted

namespace Block

/-- What becomes of the line breaks at the end of a block. -/
inductive Chomp where
  /-- None is kept. -/
  | strip
  /-- The first is kept. -/
  | clip
  /-- All are kept. -/
  | keep
  deriving DecidableEq, Repr

/-- The sign for line breaks at the end. -/
def chomp? : Text → Option Chomp × Text
  | [] => (none, [])
  | g :: rest =>
    if g.char = '-' then (some .strip, rest)
    else if g.char = '+' then (some .keep, rest)
    else (none, g :: rest)

/-- The digit for the indentation, zero when there is none; a written zero is an error. -/
def width? : Text → Option (Nat × Text)
  | [] => some (0, [])
  | g :: rest =>
    if g.char = '0' then none
    else if g.char.isDigit then some (g.char.toNat - '0'.toNat, rest)
    else some (0, g :: rest)

/-- The rest of a block's first line: sign and digit in either order. -/
def header? (t : Text) : Option (Chomp × Nat × Text) := do
  let (sign, t) := chomp? t
  let (width, t) ← width? t
  let (sign, t) := if sign.isSome then (sign, t) else chomp? t
  return (sign.getD .clip, width, ← t.endLine?)

/-- Takes the indentation of the next line and the empty lines before it; zero stands for an
indentation that is not known yet. Returns the breaks, the widest indentation and what follows. -/
def indentation (indent : Nat) (column widest : Nat) : Text → Option (List Char × Nat × Text)
  | [] => some ([], max widest column, [])
  | g :: rest =>
    let within := indent = 0 ∨ g.column < indent
    if g.char = ' ' ∧ within then indentation indent (column + 1) widest rest
    else if g.char = '\t' ∧ within then none
    else if isBreak g.char then do
      let (breaks, widest, rest) ← indentation indent 0 (max widest g.column) rest
      return (g.char :: breaks, widest, rest)
    else some ([], max widest g.column, g :: rest)

/-- The lines of a block: their text, the break after the last one, the further breaks, and what
follows. A break is folded into a space only between lines that do not start with a blank. -/
def lines (folded : Bool) (indent : Nat) :
    Nat → List Char → List Char → Bool → Text → Option (List Char × List Char × List Char × Text)
  | 0, first, more, _, t => some ([], first, more, t)
  | fuel + 1, first, more, afterBlank, t =>
    match t with
    | [] => some ([], first, more, [])
    | g :: _ =>
      if g.column ≠ indent then some ([], first, more, t)
      else do
        let blank := isBlank g.char
        let joint :=
          if folded && first == ['\n'] && !afterBlank && !blank then
            if more.isEmpty then [' '] else []
          else first
        let (line, rest) := t.span (!isBreak ·)
        let (breaks, _, next) ← indentation indent 0 0 (rest.drop 1)
        let (text, first, others, rest) ←
          lines folded indent fuel (Text.chars (rest.take 1)) breaks blank next
        return (joint ++ more ++ line ++ text, first, others, rest)

/-- The block scalar at the front of a text, its indicator taken, in a collection whose content is
indented at least so much. -/
def read? (folded : Bool) (inner : Nat) (t : Text) : Option (List Char × Text) := do
  let (chomp, width, t) ← header? t
  let (breaks, widest, t) ← indentation (if width = 0 then 0 else inner - 1 + width) 0 0 t
  let indent := if width = 0 then max widest (max inner 1) else inner - 1 + width
  let (text, first, more, t) ← lines folded indent t.length [] breaks false t
  return (text ++ (if chomp = .strip then [] else first) ++ (if chomp = .keep then more else []), t)

end Block

end Lifecycle.Yaml
