import Lifecycle.Dict
import Lifecycle.Json.Number

/-!
# Free-form JSON values

A value is JSON data whose shape nobody fixed: payloads, answers of the remote
service, policy documents. An object holds its members in ascending key order
(`Value.WellFormed`), so equal objects are equal lists.
-/

namespace Lifecycle.Json

/-- A free-form JSON value. -/
inductive Value where
  /-- The null value. -/
  | null
  /-- A truth value. -/
  | bool (b : Bool)
  /-- A number. -/
  | number (n : Number)
  /-- A text. -/
  | string (s : String)
  /-- A list of values. -/
  | array (items : List Value)
  /-- Named values, in ascending key order. -/
  | object (members : List (String × Value))

namespace Value

instance : Inhabited Value := ⟨.null⟩

mutual

/-- Equality of content; numbers compare by value. -/
protected def beq : Value → Value → Bool
  | .null, .null => true
  | .bool a, .bool b => a == b
  | .number a, .number b => a == b
  | .string a, .string b => a == b
  | .array as, .array bs => beqItems as bs
  | .object as, .object bs => beqMembers as bs
  | _, _ => false

/-- Equality item by item. -/
def beqItems : List Value → List Value → Bool
  | [], [] => true
  | a :: as, b :: bs => a.beq b && beqItems as bs
  | _, _ => false

/-- Equality member by member. -/
def beqMembers : List (String × Value) → List (String × Value) → Bool
  | [], [] => true
  | (k, a) :: as, (l, b) :: bs => k == l && a.beq b && beqMembers as bs
  | _, _ => false

end

instance : BEq Value := ⟨Value.beq⟩

mutual

/-- Every object in the value lists its keys in strictly ascending order. -/
def WellFormed : Value → Prop
  | .array items => WellFormedItems items
  | .object members => Entries.Ascending members ∧ WellFormedMembers members
  | _ => True

/-- Every item is well formed. -/
def WellFormedItems : List Value → Prop
  | [] => True
  | item :: items => item.WellFormed ∧ WellFormedItems items

/-- Every member is well formed. -/
def WellFormedMembers : List (String × Value) → Prop
  | [] => True
  | (_, value) :: members => value.WellFormed ∧ WellFormedMembers members

end

mutual

/-- No number in the value is a float. -/
def FloatFree : Value → Prop
  | .number (.float _) => False
  | .array items => FloatFreeItems items
  | .object members => FloatFreeMembers members
  | _ => True

/-- No item holds a float. -/
def FloatFreeItems : List Value → Prop
  | [] => True
  | item :: items => item.FloatFree ∧ FloatFreeItems items

/-- No member holds a float. -/
def FloatFreeMembers : List (String × Value) → Prop
  | [] => True
  | (_, value) :: members => value.FloatFree ∧ FloatFreeMembers members

end

/-- The object with the given members, in any order. -/
def ofMembers (members : List (String × Value)) : Value := .object (Entries.collect members)

/-- The object with those of the given members that are set. -/
def ofPresent (members : List (String × Option Value)) : Value :=
  ofMembers (members.filterMap fun member => member.2.map (member.1, ·))

/-- The number for a word. -/
def ofWord (n : UInt64) : Value := .number (.ofWord n)

/-- A list of texts. -/
def ofStrings (texts : List String) : Value := .array (texts.map .string)

/-- The text, or null when there is none. -/
def ofString? (text : Option String) : Value := (text.map .string).getD .null

/-- A member of an object; other values have no members. -/
def get? (key : String) : Value → Option Value
  | .object members => Entries.find? key members
  | _ => none

/-- The first item of an array; other values have no items. -/
def first? : Value → Option Value
  | .array items => items.head?
  | _ => none

/-- The text, when the value is one. -/
def string? : Value → Option String
  | .string s => some s
  | _ => none

/-- The truth value, when the value is one. -/
def bool? : Value → Option Bool
  | .bool b => some b
  | _ => none

/-- The natural number, when the value is one that is written as an integer. -/
def nat? : Value → Option Nat
  | .number n => n.toNat?
  | _ => none

/-- The items, when the value is an array. -/
def array? : Value → Option (List Value)
  | .array items => some items
  | _ => none

/-- The members, when the value is an object. -/
def object? : Value → Option (List (String × Value))
  | .object members => some members
  | _ => none

/-- A member that is a text. -/
def stringAt? (key : String) (v : Value) : Option String := (v.get? key).bind string?

/-- A member that is a truth value. -/
def boolAt? (key : String) (v : Value) : Option Bool := (v.get? key).bind bool?

/-- Whether the value is null. -/
def isNull : Value → Bool
  | .null => true
  | _ => false

end Value

end Lifecycle.Json
