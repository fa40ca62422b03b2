/-!
# Numerals of YAML scalars

Which integer or float the text of a scalar denotes. Integers are decimal, or
hexadecimal, octal or binary after `0x`, `0o` or `0b`. Digits after a leading
zero denote no number. Floats are the closest ones to their decimals; a decimal
beyond the float range denotes none.
-/

namespace Lifecycle.Yaml.Numeral

/-- The value of a digit up to the letter F, in either case. -/
def digit? (c : Char) : Option Nat :=
  if c.isDigit then some (c.toNat - '0'.toNat)
  else if 'a' ≤ c ∧ c ≤ 'f' then some (c.toNat - 'a'.toNat + 10)
  else if 'A' ≤ c ∧ c ≤ 'F' then some (c.toNat - 'A'.toNat + 10)
  else none

/-- The number that digits of a radix denote; there is at least one. -/
def digits? (radix : Nat) : List Char → Option Nat
  | [] => none
  | cs => cs.foldlM (fun n c => do
      let d ← digit? c
      if d < radix then some (n * radix + d) else none) 0

/-- The number after its sign. -/
def magnitude? : List Char → Option Nat
  | '0' :: 'x' :: cs => digits? 16 cs
  | '0' :: 'o' :: cs => digits? 8 cs
  | '0' :: 'b' :: cs => digits? 2 cs
  | ['0'] => some 0
  | '0' :: _ => none
  | cs => digits? 10 cs

/-- The text after one plus sign, if it starts with one. -/
def unsigned : List Char → List Char
  | '+' :: cs => cs
  | cs => cs

/-- The natural number that a text denotes. -/
def natural? (cs : List Char) : Option Nat := magnitude? (unsigned cs)

/-- The integer that a text denotes. -/
def integer? : List Char → Option Int
  | '-' :: cs => (magnitude? cs).map fun n => -n
  | cs => (natural? cs).map fun n => n

/-- The digits after a sign start with a zero that is not their last. -/
def isPadded (cs : List Char) : Bool :=
  match cs with
  | '-' :: '0' :: c :: rest | '+' :: '0' :: c :: rest | '0' :: c :: rest =>
    (c :: rest).all Char.isDigit
  | _ => false

/-- The power of ten that an exponent's text gives. -/
def exponent? : List Char → Option Int
  | '-' :: cs => (digits? 10 cs).map fun n => -n
  | cs => (digits? 10 (unsigned cs)).map fun n => n

/-- Whole digits, fraction digits and power of ten of a decimal without a sign; there is at least
one digit, and the point needs none on either side. -/
def decimal? (cs : List Char) : Option (List Char × List Char × Int) := do
  let whole := cs.takeWhile Char.isDigit
  let (fraction, rest) :=
    match cs.dropWhile Char.isDigit with
    | '.' :: rest => (rest.takeWhile Char.isDigit, rest.dropWhile Char.isDigit)
    | rest => ([], rest)
  guard (!(whole ++ fraction).isEmpty)
  match rest with
  | [] => return (whole, fraction, 0)
  | e :: rest =>
    guard (e = 'e' ∨ e = 'E')
    return (whole, fraction, ← exponent? rest)

/-- The closest float to `significand * 10 ^ power`, unless it is beyond the range; powers far out
of the range are not computed. -/
def scale? (significand : Nat) (power : Int) : Option Float :=
  let lead := (Nat.toDigits 10 significand).length + power
  if significand = 0 ∨ lead < -400 then some 0
  else if 400 < lead then none
  else
    let x := Float.ofScientific significand (power < 0) power.natAbs
    if x.isInf then none else some x

/-- The float that a text denotes: a decimal, an infinity or no number. -/
def float? (cs : List Char) : Option Float :=
  let (negative, body) :=
    match cs with
    | '-' :: cs => (true, cs)
    | cs => (false, unsigned cs)
  if [".inf", ".Inf", ".INF"].contains (String.ofList body) then
    some (if negative then -1.0 / 0.0 else 1.0 / 0.0)
  else if [".nan", ".NaN", ".NAN"].contains (String.ofList cs) then some (0.0 / 0.0)
  else do
    let (whole, fraction, power) ← decimal? body
    let x ← scale? (Nat.ofDigitChars 10 (whole ++ fraction) 0) (power - fraction.length)
    return if negative then -x else x

end Lifecycle.Yaml.Numeral
