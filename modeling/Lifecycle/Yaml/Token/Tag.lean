import Lifecycle.Json.Quoted
import Lifecycle.Yaml.Text
import Lifecycle.Yaml.Token

/-!
# Tags, names and directives in a YAML text

Reads what annotates content: anchors and references to them, tags, and the
directives before a document.
-/

namespace Lifecycle.Yaml

/-- The byte of a character of a tag; those are all ASCII. -/
def byteOf (c : Char) : UInt8 := UInt8.ofNat c.toNat

/-- Characters of a tag that stand for themselves; a verbatim tag may hold three marks more. -/
def isTagChar (verbatim : Bool) (c : Char) : Bool :=
  isNameChar c || ";/?:@&=+$.!~*()".toList.contains c || c == '\x27'
    || verbatim && ",[]".toList.contains c

/-- How many more bytes a character takes whose first byte is given. -/
def followers? (b : UInt8) : Option Nat :=
  if b &&& 0x80 = 0 then some 0
  else if b &&& 0xE0 = 0xC0 then some 1
  else if b &&& 0xF0 = 0xE0 then some 2
  else if b &&& 0xF8 = 0xF0 then some 3
  else none

/-- The tag text at the front of a text, escapes undone. In the middle of an escaped character so
many bytes of it are still to come. -/
def tagText (verbatim : Bool) (pending : Nat) : Text → Option (List UInt8 × Text)
  | [] => if pending = 0 then some ([], []) else none
  | g :: rest =>
    if g.char = '%' then
      match rest with
      | a :: b :: rest => do
        let byte := UInt8.ofNat
          (16 * (← Json.Quoted.hexValue? a.char) + (← Json.Quoted.hexValue? b.char))
        let pending ←
          match pending with
          | 0 => followers? byte
          | pending + 1 => if byte &&& 0xC0 = 0x80 then some pending else none
        let (more, rest) ← tagText verbatim pending rest
        return (byte :: more, rest)
      | _ => none
    else if pending ≠ 0 then none
    else if isTagChar verbatim g.char then do
      let (more, rest) ← tagText verbatim 0 rest
      return (byteOf g.char :: more, rest)
    else some ([], g :: rest)

namespace Token

/-- The name after an anchor's or a reference's mark; a space or certain marks must follow it. -/
def name? (t : Text) : Option (List Char × Text) := do
  let (name, rest) := t.span isNameChar
  guard (!name.isEmpty)
  guard (rest.first?.all fun c => isSpace c || "?:,]%@".toList.contains c || c == '\x7d' || c == '\x60')
  return (name, rest)

/-- The mark that starts a tag. -/
def tagMark : UInt8 := byteOf '!'

/-- The rest of a tag, its mark taken: verbatim, with a named handle, or local. -/
def tagBody? (t : Text) : Option (Token × Text) :=
  if t.first? = some '<' then do
    let (suffix, rest) ← tagText true 0 (t.drop 1)
    guard (!suffix.isEmpty ∧ rest.first? = some '>')
    return (.tag [] suffix, rest.drop 1)
  else do
    let (name, rest) := t.span isNameChar
    let name := name.map byteOf
    if rest.first? = some '!' then
      let (suffix, rest) ← tagText false 0 (rest.drop 1)
      guard (!suffix.isEmpty)
      return (.tag (tagMark :: name ++ [tagMark]) suffix, rest)
    let (more, rest) ← tagText false 0 rest
    if (name ++ more).head?.all (· == 0) then return (.tag [] [tagMark], rest)
    return (.tag [tagMark] (name ++ more), rest)

/-- The rest of a tag, its mark taken; a space must follow it, or a comma in a flow collection. -/
def tag? (inFlow : Bool) (t : Text) : Option (Token × Text) := do
  let (token, rest) ← tagBody? t
  guard (rest.startsSpace || inFlow && rest.first? == some ',')
  return (token, rest)

/-- A number of a version: one to nine digits. -/
def versionPart? (t : Text) : Option (Nat × Text) := do
  let (digits, rest) := t.span Char.isDigit
  guard (!digits.isEmpty && digits.length ≤ 9)
  return (Nat.ofDigitChars 10 digits 0, rest)

/-- The handle that a directive declares. -/
def handle? (t : Text) : Option (List UInt8 × Text) := do
  guard (t.first? = some '!')
  let (name, rest) := Text.span isNameChar (t.drop 1)
  if rest.first? = some '!' then
    return (tagMark :: name.map byteOf ++ [tagMark], rest.drop 1)
  guard name.isEmpty
  return ([tagMark], rest)

/-- What a directive of the given name says. -/
def directiveBody? (name : String) (t : Text) : Option (Token × Text) :=
  if name = "YAML" then do
    let (major, rest) ← versionPart? t
    guard (rest.first? = some '.')
    let (minor, rest) ← versionPart? (rest.drop 1)
    return (.version major minor, rest)
  else if name = "TAG" then do
    let (handle, rest) ← handle? t
    guard (rest.first?.any isBlank)
    let (lead, rest) ← tagText true 0 (rest.dropWhile isBlank)
    guard (!lead.isEmpty && rest.startsSpace)
    return (.tagHandle handle lead, rest)
  else none

/-- The rest of a directive's line, its mark taken. -/
def directive? (t : Text) : Option (Token × Text) := do
  let (name, rest) := t.span isNameChar
  guard rest.startsSpace
  let (token, rest) ← directiveBody? (String.ofList name) (rest.dropWhile isBlank)
  return (token, ← rest.endLine?)

end Token

end Lifecycle.Yaml
