import Lifecycle.Yaml.Node
import Lifecycle.Yaml.Token.Lexer

/-!
# Building YAML nodes from tokens

`Node.read?` reads a text that holds at most one document. Where a node could
stand and none does, an empty plain scalar stands. Every other step consumes a
token, so twice the number of tokens bounds the nesting of steps.
-/

namespace Lifecycle.Yaml

namespace Reader

/-- What is left of the tokens, and the anchors so far. -/
structure State where
  /-- Tokens still to be read. -/
  tokens : List Token
  /-- Names of anchors with their numbers, the latest first. -/
  anchors : List (List Char × Nat) := []

/-- A step of reading, which may find the tokens in no valid order. -/
abbrev Step := StateT State Option

/-- The next token, which stays. -/
def peek? : Step (Option Token) := return (← get).tokens.head?

/-- Drops the next token. -/
def drop : Step Unit := modify fun s => { s with tokens := s.tokens.tail }

/-- Drops the next token when it is the given one; says whether it is. -/
def accept (token : Token) : Step Bool := do
  if (← peek?) = some token then
    drop
    return true
  return false

/-- Drops the next token, which must be the given one. -/
def expect (token : Token) : Step Unit := do guard (← accept token)

/-- Gives an anchor its number. -/
def declare (name : List Char) : Step Nat := do
  let s ← get
  let names := (s.anchors.map (·.1)).eraseDups
  set { s with anchors := (name, names.length) :: s.anchors }
  return names.length

/-- The number of the anchor that a name refers to. -/
def number (name : List Char) : Step Nat := do
  match (← get).anchors.find? (·.1 = name) with
  | some (_, n) => return n
  | none => failure

/-- What each handle of a tag stands for. -/
abbrev Handles := List (List UInt8 × List UInt8)

/-- The handles that need no directive. -/
def Handles.standard : Handles :=
  [(Tag.ofString "!", Tag.ofString "!"), (Tag.ofString "!!", Tag.core)]

/-- The tag of a handle and a suffix; without a handle the suffix is the tag. -/
def Handles.tag? (handles : Handles) (handle suffix : List UInt8) : Option Tag :=
  let suffix := Tag.upToZero suffix
  if handle.isEmpty then some suffix
  else (handles.find? (·.1 = handle)).map fun entry => Tag.upToZero entry.2 ++ suffix

/-- Reads an anchor, if one comes next. -/
def anchor? : Step (Option Nat) := do
  let some (.anchor name) ← peek? | return none
  drop
  return some (← declare name)

/-- Reads a tag, if one comes next. -/
def tag? (handles : Handles) : Step (Option Tag) := do
  let some (.tag handle suffix) ← peek? | return none
  drop
  return some (← handles.tag? handle suffix)

/-- Reads anchor and tag, in either order, each at most once. -/
def properties (handles : Handles) : Step Properties := do
  match ← anchor? with
  | some anchor => return { anchor, tag := ← tag? handles }
  | none =>
    let tag ← tag? handles
    return { anchor := ← anchor?, tag }

/-- The token ends a place where a node could stand. -/
def ends (tokens : List Token) : Option Token → Bool
  | none => false
  | some token => tokens.contains token

mutual

/-- Reads a node; block collections are read where they may stand, and so are the items of a
sequence that is not indented further than the key before it. -/
def node (handles : Handles) (block unindented : Bool) : Nat → Step Node
  | 0 => failure
  | fuel + 1 => do
    if let some (.alias name) ← peek? then
      drop
      return .alias (← number name)
    let p ← properties handles
    match ← peek? with
    | some (.scalar style text) =>
      drop
      return .scalar p style (String.ofList text)
    | some .flowSequence =>
      drop
      return .sequence p (← flowItems handles true fuel)
    | some .flowMapping =>
      drop
      return .mapping p (← flowMembers handles true fuel)
    | token =>
      if unindented && token == some .blockEntry then
        return .sequence p (← unindentedItems handles fuel)
      else if block && token == some .blockSequence then
        drop
        return .sequence p (← blockItems handles fuel)
      else if block && token == some .blockMapping then
        drop
        return .mapping p (← blockMembers handles fuel)
      else
        guard (p.anchor.isSome ∨ p.tag.isSome)
        return .scalar p .plain ""

/-- Reads a node unless one of the given tokens shows that none stands here. -/
def nodeUnless (handles : Handles) (stops : List Token) (block unindented : Bool) :
    Nat → Step Node
  | 0 => failure
  | fuel + 1 => do
    if ends stops (← peek?) then return .empty
    node handles block unindented fuel

/-- The items of an indented sequence. -/
def blockItems (handles : Handles) : Nat → Step (List Node)
  | 0 => failure
  | fuel + 1 => do
    if ← accept .blockEntry then
      let item ← nodeUnless handles [.blockEntry, .blockEnd] true false fuel
      return item :: (← blockItems handles fuel)
    expect .blockEnd
    return []

/-- The items of a sequence that is not indented further than the key before it. -/
def unindentedItems (handles : Handles) : Nat → Step (List Node)
  | 0 => failure
  | fuel + 1 => do
    if ← accept .blockEntry then
      let item ← nodeUnless handles [.blockEntry, .key, .value, .blockEnd] true false fuel
      return item :: (← unindentedItems handles fuel)
    return []

/-- The members of an indented mapping; each starts with a key. -/
def blockMembers (handles : Handles) : Nat → Step (List (Node × Node))
  | 0 => failure
  | fuel + 1 => do
    let stops : List Token := [.key, .value, .blockEnd]
    if ← accept .key then
      let key ← nodeUnless handles stops true true fuel
      let value ←
        if ← accept .value then nodeUnless handles stops true true fuel else pure .empty
      return (key, value) :: (← blockMembers handles fuel)
    expect .blockEnd
    return []

/-- The items between brackets. A key among them makes a mapping with one member; a key's place
left empty swallows the token after it. -/
def flowItems (handles : Handles) (first : Bool) : Nat → Step (List Node)
  | 0 => failure
  | fuel + 1 => do
    if ← accept .flowSequenceEnd then return []
    if !first then expect .flowEntry
    if ← accept .flowSequenceEnd then return []
    if ← accept .key then
      let key ←
        if ends [.value, .flowEntry, .flowSequenceEnd] (← peek?) then
          drop
          pure .empty
        else node handles false false fuel
      let value ←
        if ← accept .value then
          nodeUnless handles [.flowEntry, .flowSequenceEnd] false false fuel
        else pure .empty
      return .mapping {} [(key, value)] :: (← flowItems handles false fuel)
    let item ← node handles false false fuel
    return item :: (← flowItems handles false fuel)

/-- The members between braces; one without a key's mark has an empty value. -/
def flowMembers (handles : Handles) (first : Bool) : Nat → Step (List (Node × Node))
  | 0 => failure
  | fuel + 1 => do
    if ← accept .flowMappingEnd then return []
    if !first then expect .flowEntry
    if ← accept .flowMappingEnd then return []
    let member ←
      if ← accept .key then
        let key ← nodeUnless handles [.value, .flowEntry, .flowMappingEnd] false false fuel
        let value ←
          if ← accept .value then
            nodeUnless handles [.flowEntry, .flowMappingEnd] false false fuel
          else pure .empty
        pure (key, value)
      else
        pure (← node handles false false fuel, .empty)
    return member :: (← flowMembers handles false fuel)

end

/-- Reads directives: at most one version, which must be known, and handles without repetition. -/
def directives (version : Bool) (handles : Handles) : Nat → Step (Bool × Handles)
  | 0 => failure
  | fuel + 1 => do
    match ← peek? with
    | some (.version major minor) =>
      guard (!version && major == 1 && (minor == 1 || minor == 2))
      drop
      directives true handles fuel
    | some (.tagHandle handle lead) =>
      guard (handles.all (·.1 ≠ handle))
      drop
      directives version (handles ++ [(handle, lead)]) fuel
    | _ => return (version, handles)

/-- Drops the marks at the end of a document, after which nothing more may come. -/
def finish : Step Unit := do
  guard ((← get).tokens.all (· == .documentEnd))

/-- Reads the only document, if there is one. -/
def stream (fuel : Nat) : Step (Option Node) := do
  if (← peek?).isNone then return none
  let (version, handles) ← directives false [] fuel
  let explicit ← accept .documentStart
  guard (explicit ∨ (!version ∧ handles.isEmpty))
  let handles := handles ++ Handles.standard
  let next ← peek?
  let root ←
    if explicit && (next.isNone || ends [.documentStart, .documentEnd] next) then pure .empty
    else node handles true false fuel
  finish
  return some root

end Reader

/-- The only document of a text, if any; a text that is not YAML or holds several documents
fails. -/
def Node.read? (s : String) : Option (Option Node) := do
  let tokens ← Token.read? (← Text.read? s)
  return (← (Reader.stream (2 * tokens.length + 4)).run { tokens }).1

end Lifecycle.Yaml
