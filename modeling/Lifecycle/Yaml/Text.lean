/-!
# YAML text

A text is a list of characters that know where they stand, because indentation
gives a YAML text its shape. Before that all spellings of a plain line break are
made one, so that every character, line breaks included, is a single glyph.
`Text.read?` refuses a text with a character that no YAML text may hold.
-/

namespace Lifecycle.Yaml

/-- A character and its place; all counts start from zero. -/
structure Glyph where
  /-- The character. -/
  char : Char
  /-- The line it stands on. -/
  line : Nat
  /-- How many characters stand before it on its line. -/
  column : Nat
  /-- How many bytes these characters take. -/
  offset : Nat
  deriving DecidableEq, Repr

/-- Line breaks that remain once the plain ones are unified: the plain one, and the line and
paragraph separators, which keep their identity. -/
def isBreak (c : Char) : Bool := c == '\n' || c == '\u2028' || c == '\u2029'

/-- Blanks within a line. -/
def isBlank (c : Char) : Bool := c == ' ' || c == '\t'

/-- Blanks and line breaks. -/
def isSpace (c : Char) : Bool := isBlank c || isBreak c

/-- Characters of names: ASCII letters and digits, the underscore and the dash. -/
def isNameChar (c : Char) : Bool := c.isAlphanum || c == '_' || c == '-'

/-- Characters that a text may hold as they are. -/
def isAllowed (c : Char) : Bool :=
  let n := c.toNat
  c == '\t' || c == '\n' || c == '\r' || n == 0x85 || (0x20 ≤ n && n ≤ 0x7E)
    || (0xA0 ≤ n && n ≤ 0xFFFD) || 0x10000 ≤ n

/-- Some consecutive characters of a text. -/
abbrev Text := List Glyph

namespace Text

/-- Makes carriage return, line feed, both in a row and the next-line character one line break. -/
def unifyBreaks : List Char → List Char
  | '\r' :: '\n' :: rest => '\n' :: unifyBreaks rest
  | c :: rest => (if c == '\r' || c == '\u0085' then '\n' else c) :: unifyBreaks rest
  | [] => []

/-- Gives every character its place, from the given line, column and offset on. -/
def place (line column offset : Nat) : List Char → Text
  | [] => []
  | c :: rest =>
    ⟨c, line, column, offset⟩ ::
      if isBreak c then place (line + 1) 0 0 rest else place line (column + 1) (offset + c.utf8Size) rest

/-- The glyphs of a text, unless one of its characters is not allowed. -/
def read? (s : String) : Option Text :=
  if s.toList.all isAllowed then some (place 0 0 0 (unifyBreaks s.toList)) else none

/-- The characters alone. -/
def chars (t : Text) : List Char := t.map (·.char)

/-- The first character. -/
def first? (t : Text) : Option Char := t.head?.map (·.char)

/-- Nothing is left, or a blank or a line break comes first. -/
def startsSpace (t : Text) : Bool := t.first?.all isSpace

/-- Nothing is left, or a line break comes first. -/
def startsBreak (t : Text) : Bool := t.first?.all isBreak

/-- The characters at the front that meet a condition, and what follows them. -/
def span (p : Char → Bool) (t : Text) : List Char × Text :=
  (chars (t.takeWhile (p ·.char)), t.dropWhile (p ·.char))

/-- What follows the characters at the front that meet a condition. -/
def dropWhile (p : Char → Bool) (t : Text) : Text := List.dropWhile (p ·.char) t

/-- A line starts with three of the given characters that stand alone. -/
def startsRule (c : Char) : Text → Bool
  | a :: b :: d :: rest =>
    a.column == 0 && a.char == c && b.char == c && d.char == c && startsSpace rest
  | _ => false

/-- A line starts with a mark between documents. -/
def startsMark (t : Text) : Bool := t.startsRule '-' || t.startsRule '.'

/-- What follows the blanks and the comment at the end of a line, when nothing else stands there. -/
def endLine? (t : Text) : Option Text :=
  let t := t.dropWhile isBlank
  let t := if t.first? = some '#' then t.dropWhile (!isBreak ·) else t
  if t.startsBreak then some (t.drop 1) else none

@[simp] theorem length_place (line column offset : Nat) (cs : List Char) :
    (place line column offset cs).length = cs.length := by
  induction cs generalizing line column offset with
  | nil => rfl
  | cons c rest ih =>
    simp only [place, List.length_cons]
    split <;> rw [ih]

/-- Placing loses no character. -/
@[simp] theorem chars_place (line column offset : Nat) (cs : List Char) :
    chars (place line column offset cs) = cs := by
  induction cs generalizing line column offset with
  | nil => rfl
  | cons c rest ih =>
    simp only [place, chars, List.map_cons, List.cons.injEq, true_and] at ih ⊢
    split <;> exact ih ..

end Text

end Lifecycle.Yaml
