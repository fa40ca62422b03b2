import Lifecycle.Yaml.Token.Scalar
import Lifecycle.Yaml.Token.Tag

/-!
# Cutting a YAML text into tokens

Indentation opens and closes collections, and a scalar or a collection turns out
to be a key only when its colon is found. So the lexer keeps the columns of the
open block collections, and for each level of brackets a candidate: the place
where a key would have started. A candidate lasts for one line and 1024
bytes. `Token.read?` gives the tokens of a whole text.
-/

namespace Lifecycle.Yaml

/-- The place where a key may have started. -/
structure Candidate where
  /-- How many tokens stand before it. -/
  position : Nat
  /-- Its line. -/
  line : Nat
  /-- Its column. -/
  column : Nat
  /-- How many bytes stand before it on its line. -/
  offset : Nat
  /-- It stands where a block collection needs a key. -/
  required : Bool
  deriving DecidableEq, Repr

/-- A candidate is too far away once another line has begun or 1024 bytes were read. -/
def Candidate.expired (c : Candidate) (g : Glyph) : Bool :=
  c.line < g.line || c.offset + 1024 < g.offset

/-- A text that is partly cut into tokens. -/
structure Lexer where
  /-- What is still to be read. -/
  text : Text
  /-- The tokens so far, the newest first. -/
  tokens : List Token := []
  /-- Columns of the open block collections, the innermost first. -/
  columns : List Nat := []
  /-- The candidate among the marks of the innermost collection. -/
  candidate : Option Candidate := none
  /-- The candidates around the open brackets and braces, the innermost first. -/
  outer : List (Option Candidate) := []
  /-- A key may start here. -/
  keyAllowed : Bool := true

namespace Lexer

/-- Inside brackets or braces, where indentation means nothing. -/
def inFlow (s : Lexer) : Bool := !s.outer.isEmpty

/-- The least column of what belongs into the innermost block collection. -/
def inner (s : Lexer) : Nat := (s.columns.head?.map (· + 1)).getD 0

/-- Adds a token. -/
def push (s : Lexer) (token : Token) : Lexer := { s with tokens := token :: s.tokens }

/-- Adds a token before those from a position on. -/
def insert (s : Lexer) (position : Nat) (token : Token) : Lexer :=
  { s with tokens := s.tokens.insertIdx (s.tokens.length - position) token }

/-- The text after blanks, comments and line breaks, and whether a key may start there; in a
comment all goes up to the line break. A tab counts as a blank only where no key may start, and a
byte order mark only where a line starts. -/
def skip (inFlow : Bool) : Bool → Bool → Text → Bool × Text
  | keyAllowed, _, [] => (keyAllowed, [])
  | keyAllowed, comment, g :: rest =>
    if isBreak g.char then skip inFlow (keyAllowed || !inFlow) false rest
    else if comment || g.char == '#' then skip inFlow keyAllowed true rest
    else if g.char == ' ' || g.char == '\t' && (inFlow || !keyAllowed)
        || g.char == '\ufeff' && g.column == 0 then
      skip inFlow keyAllowed false rest
    else (keyAllowed, g :: rest)

/-- Goes on to the next token. -/
def advance (s : Lexer) : Lexer :=
  let (keyAllowed, text) := skip s.inFlow s.keyAllowed false s.text
  { s with text, keyAllowed }

/-- Forgets a candidate that is too far away; a required one must not be. -/
def renew? (g : Glyph) : Option Candidate → Option (Option Candidate)
  | none => some none
  | some c => if c.expired g then if c.required then none else some none else some (some c)

/-- Forgets the candidates that are too far away. -/
def expire? (s : Lexer) (g : Glyph) : Option Lexer := do
  return { s with candidate := ← renew? g s.candidate, outer := ← s.outer.mapM (renew? g) }

/-- Gives up the candidate; a required one must not be. -/
def dropCandidate? (s : Lexer) : Option Lexer :=
  if s.candidate.any (·.required) then none else some { s with candidate := none }

/-- Notes that a key may start here. -/
def noteCandidate? (s : Lexer) (g : Glyph) : Option Lexer :=
  if s.keyAllowed then do
    let s ← s.dropCandidate?
    let required := !s.inFlow && s.columns.head? == some g.column
    return { s with candidate := some ⟨s.tokens.length, g.line, g.column, g.offset, required⟩ }
  else some s

/-- Ends the block collections with content to the right of what comes now; without a column, all
of them. -/
def closeBlocks (s : Lexer) (column : Option Nat) : Lexer :=
  if s.inFlow then s
  else
    let beyond := fun open_ => column.all (· < open_)
    { s with tokens := (s.columns.takeWhile beyond).map (fun _ => .blockEnd) ++ s.tokens
             columns := s.columns.dropWhile beyond }

/-- Starts a block collection at a column further right, with its token at a position. -/
def openBlock (s : Lexer) (column position : Nat) (token : Token) : Lexer :=
  if s.inFlow || column < s.inner then s
  else { s.insert position token with columns := column :: s.columns }

/-- Starts a block collection where its mark stands, which needs room for a key. -/
def openBlockHere? (s : Lexer) (g : Glyph) (token : Token) : Option Lexer :=
  if s.inFlow then some s
  else if s.keyAllowed then some (s.openBlock g.column s.tokens.length token)
  else none

/-- A mark between documents or a directive, after which nothing is open. -/
def boundary? (s : Lexer) (token : Token) (rest : Text) : Option Lexer := do
  let s ← (s.closeBlocks none).dropCandidate?
  return { s.push token with text := rest, keyAllowed := false }

/-- An opening bracket or brace. -/
def openFlow? (s : Lexer) (g : Glyph) (token : Token) (rest : Text) : Option Lexer := do
  let s ← s.noteCandidate? g
  return { s.push token with
    text := rest, candidate := none, outer := s.candidate :: s.outer, keyAllowed := true }

/-- A closing bracket or brace. -/
def closeFlow? (s : Lexer) (token : Token) (rest : Text) : Option Lexer := do
  let s ← s.dropCandidate?
  return { s.push token with
    text := rest, candidate := s.outer.head?.join, outer := s.outer.tail, keyAllowed := false }

/-- A mark after which a key may start, or may so only outside of brackets and braces. -/
def mark? (s : Lexer) (token : Token) (keyAllowed : Bool) (rest : Text) : Option Lexer := do
  let s ← s.dropCandidate?
  return { s.push token with text := rest, keyAllowed }

/-- A colon: the candidate, if any, was a key. -/
def colon? (s : Lexer) (g : Glyph) (rest : Text) : Option Lexer :=
  match s.candidate with
  | some c =>
    let s := (s.insert c.position .key).openBlock c.column c.position .blockMapping
    some { s.push .value with text := rest, candidate := none, keyAllowed := false }
  | none => do
    let s ← s.openBlockHere? g .blockMapping
    return { s.push .value with text := rest, keyAllowed := !s.inFlow }

/-- Content on one line or more, which may turn out to be a key. -/
def content? (s : Lexer) (g : Glyph) (token : Token) (keyAllowed : Bool) (rest : Text) :
    Option Lexer := do
  let s ← s.noteCandidate? g
  return { s.push token with text := rest, keyAllowed }

/-- Marks with which no plain scalar starts; for the dash, the question mark and the colon that
depends on what follows. -/
def isIndicator (c : Char) : Bool :=
  isFlowMark c || "#&*!|>%@\"".toList.contains c || c == '\x27' || c == '\x60'

/-- Reads the token at the front of the text. -/
def next? (s : Lexer) (g : Glyph) (rest : Text) : Option Lexer :=
  let alone := Text.startsSpace rest
  if g.column = 0 ∧ g.char = '%' then do
    let (token, rest) ← Token.directive? rest
    s.boundary? token rest
  else if s.text.startsRule '-' then s.boundary? .documentStart (rest.drop 2)
  else if s.text.startsRule '.' then s.boundary? .documentEnd (rest.drop 2)
  else if g.char = '[' then s.openFlow? g .flowSequence rest
  else if g.char = '\x7b' then s.openFlow? g .flowMapping rest
  else if g.char = ']' then s.closeFlow? .flowSequenceEnd rest
  else if g.char = '\x7d' then s.closeFlow? .flowMappingEnd rest
  else if g.char = ',' then s.mark? .flowEntry true rest
  else if g.char = '-' ∧ alone then do
    (← s.openBlockHere? g .blockSequence).mark? .blockEntry true rest
  else if g.char = '?' ∧ (s.inFlow ∨ alone) then do
    (← s.openBlockHere? g .blockMapping).mark? .key (!s.inFlow) rest
  else if g.char = ':' ∧ (s.inFlow ∨ alone) then s.colon? g rest
  else if g.char = '*' then do
    let (name, rest) ← Token.name? rest
    s.content? g (.alias name) false rest
  else if g.char = '&' then do
    let (name, rest) ← Token.name? rest
    s.content? g (.anchor name) false rest
  else if g.char = '!' then do
    let (token, rest) ← Token.tag? s.inFlow rest
    s.content? g token false rest
  else if (g.char = '|' ∨ g.char = '>') ∧ !s.inFlow then do
    let folded := g.char == '>'
    let (text, rest) ← Block.read? folded s.inner rest
    s.mark? (.scalar (if folded then .folded else .literal) text) true rest
  else if g.char = '\x27' then do
    let (text, rest) ← Quoted.read? .single rest
    s.content? g (.scalar .quoted text) false rest
  else if g.char = '"' then do
    let (text, rest) ← Quoted.read? .double rest
    s.content? g (.scalar .quoted text) false rest
  else if isSpace g.char ∨ isIndicator g.char then none
  else do
    let (text, broken, rest) ← Plain.read? s.inFlow s.inner s.text
    s.content? g (.scalar .plain text) broken rest

/-- The tokens of what is left, in order. Every step reads a character, so there are no more
steps than characters. -/
def run : Nat → Lexer → Option (List Token)
  | 0, _ => none
  | fuel + 1, s => do
    let s := s.advance
    match s.text with
    | [] => return (← s.dropCandidate?).closeBlocks none |>.tokens.reverse
    | g :: rest =>
      let s ← s.expire? g
      run fuel (← (s.closeBlocks (some g.column)).next? g rest)

end Lexer

/-- The tokens of a text. -/
def Token.read? (t : Text) : Option (List Token) := Lexer.run (t.length + 1) { text := t }

end Lifecycle.Yaml
