import Lifecycle.Decimal.Shortest

/-!
# JSON numbers

A number is an integer of at most 64 bits or a binary64 float; `1` and `1.0`
are different numbers. The text of an integer is its decimal digits, the text of
a float its shortest digits with a fraction or an exponent. Numbers that are not
finite have no numeral and are written as null.
-/

namespace Lifecycle.Json

/-- An integer between the least signed and the greatest unsigned 64-bit word. -/
structure WireInt where
  /-- The integer itself. -/
  toInt : Int
  /-- It fits a signed or an unsigned 64-bit word. -/
  fits : -0x8000000000000000 ≤ toInt ∧ toInt < 0x10000000000000000
  deriving DecidableEq

namespace WireInt

/-- The integer, when it fits. -/
def ofInt? (n : Int) : Option WireInt :=
  if h : -0x8000000000000000 ≤ n ∧ n < 0x10000000000000000 then some ⟨n, h⟩ else none

/-- Every 64-bit word is an integer that fits. -/
def ofWord (n : UInt64) : WireInt :=
  ⟨n.toNat, by have := n.toNat_lt; omega⟩

/-- The natural number, unless the integer is negative. -/
def toNat? (n : WireInt) : Option Nat :=
  if 0 ≤ n.toInt then some n.toInt.toNat else none

/-- The nearest float. -/
def toFloat (n : WireInt) : Float :=
  if 0 ≤ n.toInt then n.toInt.toNat.toUInt64.toFloat else -(-n.toInt).toNat.toUInt64.toFloat

/-- Decimal digits, after a minus sign where negative. -/
def chars (n : WireInt) : List Char :=
  if 0 ≤ n.toInt then Nat.toDigits 10 n.toInt.toNat else '-' :: Nat.toDigits 10 (-n.toInt).toNat

end WireInt

/-- A JSON number. -/
inductive Number where
  /-- A number written without fraction and exponent. -/
  | integer (n : WireInt)
  /-- Any other number. -/
  | float (x : Float)

namespace Number

/-- The number for a word. -/
def ofWord (n : UInt64) : Number := .integer (.ofWord n)

/-- The natural number, when the number is an integer and not negative. -/
def toNat? : Number → Option Nat
  | .integer n => n.toNat?
  | .float _ => none

/-- The value as a float; every number has one. -/
def toFloat : Number → Float
  | .integer n => n.toFloat
  | .float x => x

/-- Integers equal integers and floats equal floats by value, so the two zeros are equal and an
integer never equals a float. -/
protected def beq : Number → Number → Bool
  | .integer a, .integer b => a == b
  | .float a, .float b => a == b
  | _, _ => false

instance : BEq Number := ⟨Number.beq⟩

/-- Lays out significant digits: positionally for a leading digit between `10 ^ -5` and `10 ^ 15`,
otherwise with an exponent, which always has a sign and never a leading zero. -/
def layout (d : Decimal.Digits) : List Char :=
  let width : Int := d.digits.length
  if width ≤ d.point && d.point ≤ 16 then
    d.digits ++ List.replicate (d.point - width).toNat '0' ++ ['.', '0']
  else if 0 < d.point && d.point ≤ 16 then
    d.digits.take d.point.toNat ++ '.' :: d.digits.drop d.point.toNat
  else if -5 < d.point && d.point ≤ 0 then
    '0' :: '.' :: List.replicate (-d.point).toNat '0' ++ d.digits
  else
    let lead := d.point - 1
    let exponent := (if lead < 0 then '-' else '+') :: Nat.toDigits 10 lead.natAbs
    match d.digits with
    | [single] => single :: 'e' :: exponent
    | digits => digits.take 1 ++ '.' :: digits.drop 1 ++ 'e' :: exponent

/-- The numeral of a float, unless it is infinite or not a number. -/
def floatChars? (x : Float) : Option (List Char) :=
  let bits := x.toBits
  let sign := if bits >>> 63 = 1 then ['-'] else []
  if bits >>> 52 &&& 0x7FF = 0x7FF then none
  else if bits &&& 0x7FFFFFFFFFFFFFFF = 0 then some (sign ++ ['0', '.', '0'])
  else some (sign ++ layout (Decimal.Span.ofBits bits).shortest)

/-- The text of a number. -/
def chars : Number → List Char
  | .integer n => n.chars
  | .float x => (floatChars? x).getD ['n', 'u', 'l', 'l']

end Number

end Lifecycle.Json
