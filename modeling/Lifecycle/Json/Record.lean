import Lifecycle.Json.Reader

/-!
# Decoding records

A decoder turns a document into a typed value; it is given the number of levels
of brackets and braces that may still be opened. A record may be written with
named members, where unknown ones are ignored whatever they hold and a known one
must not repeat, or as the list of its members in order. A `Slot` says what such
a text holds for one member.
-/

namespace Lifecycle.Json

/-- Reads a value out of a document that opens at most so many levels. -/
abbrev Decoder (α : Type) := Nat → Document → Option α

/-- What a record's text holds for one member. -/
inductive Slot where
  /-- Named members, and this one is not among them. -/
  | missing
  /-- A list that ends before this member. -/
  | cut
  /-- The member's document. -/
  | given (document : Document)

namespace Decoder

/-- Exactly null. -/
def unit : Decoder Unit
  | _, .null => some ()
  | _, _ => none

/-- A truth literal. -/
def bool : Decoder Bool
  | _, .bool b => some b
  | _, _ => none

/-- A string literal. -/
def string : Decoder String
  | _, .string s => some s
  | _, _ => none

/-- A natural number below a bound, written as an integer. -/
def natBelow (bound : Nat) : Decoder Nat
  | _, .number n => n.toNat?.filter (· < bound)
  | _, _ => none

/-- A 16-bit word. -/
def word16 : Decoder UInt16 := fun levels d => UInt16.ofNat <$> natBelow UInt16.size levels d

/-- A 32-bit word. -/
def word32 : Decoder UInt32 := fun levels d => UInt32.ofNat <$> natBelow UInt32.size levels d

/-- A 64-bit word. -/
def word64 : Decoder UInt64 := fun levels d => UInt64.ofNat <$> natBelow UInt64.size levels d

/-- Any number, as a float. -/
def float : Decoder Float
  | _, .number n => some n.toFloat
  | _, _ => none

/-- A free-form value. -/
def value : Decoder Value := Document.toValue?

/-- Something, or null for nothing. -/
def nullable {α : Type} (decoder : Decoder α) : Decoder (Option α)
  | _, .null => some none
  | levels, d => some <$> decoder levels d

/-- A list. -/
def list {α : Type} (decoder : Decoder α) : Decoder (List α)
  | levels + 1, .array items => items.mapM (decoder levels)
  | _, _ => none

/-- A dictionary; of members with one key the last counts, but all must decode. -/
def dict {α : Type} (decoder : Decoder α) : Decoder (Dict α)
  | levels + 1, .object members =>
    Dict.ofList <$> members.mapM fun member => (member.1, ·) <$> decoder levels member.2
  | _, _ => none

/-- A case without content: its name, or an object of that name and null. -/
def case : Decoder String
  | _, .string name => some name
  | _ + 1, .object [(name, .null)] => some name
  | _, _ => none

/-- Decodes an enumeration by the names of its cases. -/
def enumeration {α : Type} (cases : List (String × α)) : Decoder α := fun levels d => do
  let name ← case levels d
  Entries.find? name cases

end Decoder

/-- The members of one record, as its text holds them. -/
structure Record where
  /-- How many levels the members may open. -/
  levels : Nat
  /-- What stands under each name that the record knows. -/
  slot : String → Slot

namespace Record

/-- The documents under a name, in the order of the text. -/
def under {α : Type} (name : String) (members : List (String × α)) : List α :=
  members.filterMap fun member => if member.1 = name then some member.2 else none

/-- Named members; a known one must not repeat. -/
def ofMembers? (names : List String) (levels : Nat) (members : List (String × Document)) :
    Option Record :=
  if names.all fun name => (under name members).length ≤ 1 then
    some ⟨levels, fun name => ((under name members).head?.map .given).getD .missing⟩
  else none

/-- Members in order; there must not be more than the record knows. -/
def ofItems? (names : List String) (levels : Nat) (items : List Document) : Option Record :=
  if items.length ≤ names.length then
    some ⟨levels, fun name => ((items[names.idxOf name]?).map .given).getD .cut⟩
  else none

/-- Finds the members of a record that knows the given names. -/
def ofDocument? (names : List String) : Decoder Record
  | levels + 1, .object members => ofMembers? names levels members
  | levels + 1, .array items => ofItems? names levels items
  | _, _ => none

/-- A member that must be there. -/
def required {α : Type} (r : Record) (name : String) (decoder : Decoder α) : Option α :=
  match r.slot name with
  | .given d => decoder r.levels d
  | _ => none

/-- A member that may be null or have no name in the text, but not be cut off a list. -/
def nullable {α : Type} (r : Record) (name : String) (decoder : Decoder α) : Option (Option α) :=
  match r.slot name with
  | .given d => decoder.nullable r.levels d
  | .missing => some none
  | .cut => none

/-- A member that has a value of its own when it is not there. -/
def defaulted {α : Type} (r : Record) (name : String) (absent : α) (decoder : Decoder α) :
    Option α :=
  match r.slot name with
  | .given d => decoder r.levels d
  | _ => some absent

/-- A member that may be null or not there at all. -/
def optional {α : Type} (r : Record) (name : String) (decoder : Decoder α) : Option (Option α) :=
  r.defaulted name none decoder.nullable

end Record

/-- Decodes a record from its members. -/
def Decoder.record {α : Type} (names : List String) (build : Record → Option α) : Decoder α :=
  fun levels d => Record.ofDocument? names levels d >>= build

/-- Decodes a whole text, within the nesting that text may have. -/
def Decoder.ofText? {α : Type} (decoder : Decoder α) (text : String) : Option α :=
  Document.read? text.toList >>= decoder Document.maxLevels

/-- Decodes a value that is already in hand, whatever its nesting. -/
def Decoder.ofValue? {α : Type} (decoder : Decoder α) (value : Value) : Option α :=
  let d := Document.ofValue value
  decoder d.levels d

end Lifecycle.Json
