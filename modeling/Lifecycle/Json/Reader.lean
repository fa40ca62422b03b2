import Lifecycle.Json.Document
import Lifecycle.Json.Numeral

/-!
# Reading JSON text

`Document.read?` reads a whole text into a document. It checks syntax only; depth
and unreadable parts are the concern of whoever decodes the document, because a
part that nobody decodes may nest without bound. The recursion spends one unit of
fuel for each step into the text, and a text is longer than any such descent.
-/

namespace Lifecycle.Json

namespace Reader

/-- The four blanks of JSON. -/
def isBlank (c : Char) : Bool := c == ' ' || c == '\n' || c == '\t' || c == '\r'

/-- The text after its leading blanks. -/
def skip (text : List Char) : List Char := text.dropWhile isBlank

/-- The text after a given word, when it starts with it. -/
def expect (word text : List Char) : Option (List Char) :=
  if word.isPrefixOf text then some (text.drop word.length) else none

/-- The text a literal denotes, or `none` when it holds half a character. -/
def literal (text : List Char) : Option (Option String × List Char) := do
  let (pieces, rest) ← Quoted.scan text
  return ((Quoted.join pieces).map String.ofList, rest)

/-- A numeral as a document. -/
def numeral (text : List Char) : Option (Document × List Char) := do
  let (numeral, rest) ← Numeral.scan text
  match numeral.value? with
  | some n => return (.number n, rest)
  | none => return (.unreadable, rest)

mutual

/-- The document at the front of a text that starts with no blank. -/
def value : Nat → List Char → Option (Document × List Char)
  | 0, _ => none
  | fuel + 1, text =>
    match text with
    | [] => none
    | c :: rest =>
      if c = '"' then do
        let (content, rest) ← literal rest
        match content with
        | some s => return (.string s, rest)
        | none => return (.unreadable, rest)
      else if c = '[' then
        match skip rest with
        | ']' :: rest => some (.array [], rest)
        | rest => do
          let (list, rest) ← items fuel rest
          return (.array list, rest)
      else if c = '\x7b' then
        match skip rest with
        | '\x7d' :: rest => some (.object [], rest)
        | rest => do
          let (list, rest) ← members fuel rest
          match list with
          | some list => return (.object list, rest)
          | none => return (.unreadable, rest)
      else if c = 'n' then (expect "null".toList text).map (.null, ·)
      else if c = 't' then (expect "true".toList text).map (.bool true, ·)
      else if c = 'f' then (expect "false".toList text).map (.bool false, ·)
      else numeral text

/-- The items up to the closing bracket; there is at least one. -/
def items : Nat → List Char → Option (List Document × List Char)
  | 0, _ => none
  | fuel + 1, text => do
    let (first, rest) ← value fuel text
    match skip rest with
    | ']' :: rest => return ([first], rest)
    | ',' :: rest =>
      let (others, rest) ← items fuel (skip rest)
      return (first :: others, rest)
    | _ => none

/-- The members up to the closing brace; there is at least one. The list is `none` when a key
denotes no text. -/
def members : Nat → List Char → Option (Option (List (String × Document)) × List Char)
  | 0, _ => none
  | fuel + 1, text => do
    let '"' :: rest := text | none
    let (key, rest) ← literal rest
    let ':' :: rest := skip rest | none
    let (first, rest) ← value fuel (skip rest)
    let entry := key.map (·, first)
    match skip rest with
    | '\x7d' :: rest => return (entry.map fun entry => [entry], rest)
    | ',' :: rest =>
      let (others, rest) ← members fuel (skip rest)
      return (entry.bind fun entry => others.map (entry :: ·), rest)
    | _ => none

end

end Reader

/-- The document of a whole text, blanks around it allowed. -/
def Document.read? (text : List Char) : Option Document := do
  let (document, rest) ← Reader.value (text.length + 1) (Reader.skip text)
  guard (Reader.skip rest).isEmpty
  return document

end Lifecycle.Json
