import Lifecycle.Json.Number

/-!
# Reading numerals

`Numeral.scan` cuts a numeral off the front of a text; `Numeral.value?` says which
number it denotes. An integer numeral within 64 bits is exact. Every other numeral
keeps as many leading digits as fit 64 bits and is scaled by one power of ten, so
its value is a close float but not always the closest; a value beyond the float
range does not exist.
-/

namespace Lifecycle.Json

/-- A numeral, cut into its parts. -/
structure Numeral where
  /-- Whether a minus sign stands in front. -/
  negative : Bool
  /-- Digits before the point: a lone zero, or digits that start with another one. -/
  whole : List Char
  /-- Digits after the point, when there is one. -/
  fraction : Option (List Char)
  /-- Sign and digits of the exponent, when there is one; `true` stands for minus. -/
  exponent : Option (Bool × List Char)
  deriving DecidableEq, Repr

namespace Numeral

/-- The decimal digits at the front of a text, and what follows them. -/
def digits (text : List Char) : List Char × List Char :=
  (text.takeWhile Char.isDigit, text.dropWhile Char.isDigit)

/-- The part before the point; a zero stands alone. -/
def scanWhole (text : List Char) : Option (List Char × List Char) :=
  match digits text with
  | ([], _) => none
  | (['0'], rest) => some (['0'], rest)
  | ('0' :: _, _) => none
  | (whole, rest) => some (whole, rest)

/-- The part after a point, which needs a digit. -/
def scanFraction : List Char → Option (Option (List Char) × List Char)
  | '.' :: text =>
    match digits text with
    | ([], _) => none
    | (fraction, rest) => some (some fraction, rest)
  | text => some (none, text)

/-- The exponent digits, after an optional sign. -/
def scanPower (negative : Bool) (text : List Char) :
    Option (Option (Bool × List Char) × List Char) :=
  match digits text with
  | ([], _) => none
  | (power, rest) => some (some (negative, power), rest)

/-- An exponent, which needs a digit. -/
def scanExponent : List Char → Option (Option (Bool × List Char) × List Char)
  | c :: text =>
    if c = 'e' ∨ c = 'E' then
      match text with
      | '-' :: text => scanPower true text
      | '+' :: text => scanPower false text
      | text => scanPower false text
    else some (none, c :: text)
  | [] => some (none, [])

/-- The numeral at the front of a text whose sign has been taken. -/
def scanUnsigned (negative : Bool) (text : List Char) : Option (Numeral × List Char) := do
  let (whole, text) ← scanWhole text
  let (fraction, text) ← scanFraction text
  let (exponent, text) ← scanExponent text
  return (⟨negative, whole, fraction, exponent⟩, text)

/-- The numeral at the front of a text, and what follows it. -/
def scan : List Char → Option (Numeral × List Char)
  | '-' :: text => scanUnsigned true text
  | text => scanUnsigned false text

/-- Appends digits to a significand while the result fits 64 bits; returns it with the digits
left over. -/
def gather (significand : Nat) : List Char → Nat × List Char
  | [] => (significand, [])
  | c :: rest =>
    let next := Nat.ofDigitChars 10 [c] significand
    if next < UInt64.size then gather next rest else (significand, c :: rest)

/-- Divides by `10 ^ 308` until the remaining exponent is in reach of one division. -/
def scaleDown (significand : Float) (power : Nat) : Nat → Float
  | 0 => significand
  | fuel + 1 =>
    if power ≤ 308 then significand / Float.ofScientific 1 false power
    else if significand == 0 then significand
    else scaleDown (significand / 1e308) (power - 308) fuel

/-- `significand * 10 ^ exponent` as a float, unless it exceeds the float range. -/
def scale? (significand : Nat) (exponent : Int) : Option Float :=
  let mantissa := significand.toUInt64.toFloat
  if exponent < 0 then some (scaleDown mantissa exponent.natAbs (exponent.natAbs / 308 + 1))
  else if 308 < exponent then if significand = 0 then some mantissa else none
  else
    let scaled := mantissa * Float.ofScientific 1 false exponent.toNat
    if scaled.isInf then none else some scaled

/-- The magnitude of a numeral that is not an exact integer; an exponent beyond 32 bits either
exceeds the range or makes the value vanish. -/
def magnitude? (significand : Nat) (shift : Int) : Option (Bool × List Char) → Option Float
  | none => scale? significand shift
  | some (negative, power) =>
    let power := Nat.ofDigitChars 10 power 0
    if 0x80000000 ≤ power then if significand = 0 ∨ negative then some 0 else none
    else
      let exponent := if negative then shift - power else shift + power
      scale? significand (max (-0x80000000) (min exponent 0x7FFFFFFF))

/-- The number a numeral denotes; minus zero is the float, and an integer beyond 64 bits a float
as well. -/
def value? (n : Numeral) : Option Number :=
  let (significand, dropped) := gather 0 n.whole
  let float? (magnitude : Option Float) : Option Number :=
    magnitude.map fun x => .float (if n.negative then -x else x)
  match n.fraction, n.exponent with
  | none, none =>
    if dropped.isEmpty then
      if n.negative then
        match significand, WireInt.ofInt? (-significand) with
        | 0, _ => some (.float (-0.0))
        | _, some integer => some (.integer integer)
        | _, none => float? (some significand.toUInt64.toFloat)
      else (WireInt.ofInt? significand).map .integer
    else float? (magnitude? significand dropped.length none)
  | fraction, exponent =>
    let (significand, ignored) := gather significand (fraction.getD [])
    let kept := (fraction.getD []).length - ignored.length
    float? (magnitude? significand (dropped.length - kept) exponent)

end Numeral

end Lifecycle.Json
