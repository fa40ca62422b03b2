/-!
# Shortest decimals of binary fractions

A finite binary64 magnitude stands for all reals that round to it. `Span` holds
that interval over one common denominator, and `Span.shortest` picks the decimal
with the fewest digits inside it, the nearer one where two have that length, the
even one where both are equally near. All arithmetic is on naturals.
-/

namespace Lifecycle.Decimal

/-- A positive magnitude with the ends of its rounding interval, as numerators over `unit`. -/
structure Span where
  /-- Common denominator. -/
  unit : Nat
  /-- Numerator of the magnitude itself. -/
  value : Nat
  /-- Numerator of the lower end, halfway to the neighbour below. -/
  low : Nat
  /-- Numerator of the upper end, halfway to the neighbour above. -/
  high : Nat
  /-- Whether the ends themselves round to the magnitude. -/
  closed : Bool
  deriving DecidableEq, Repr

namespace Span

/-- The interval of `mantissa * 2 ^ exponent`; below a power of two the gap is half as wide. -/
def ofBinary (mantissa : Nat) (exponent : Int) (narrowBelow : Bool) : Span :=
  let scale := Nat.pow 2 (exponent - 2).toNat
  { unit := Nat.pow 2 (2 - exponent).toNat
    value := 4 * mantissa * scale
    low := (4 * mantissa - (if narrowBelow then 1 else 2)) * scale
    high := (4 * mantissa + 2) * scale
    closed := mantissa % 2 == 0 }

/-- Reads the magnitude out of the bits of a finite binary64 number, ignoring the sign. -/
def ofBits (bits : UInt64) : Span :=
  let field := (bits >>> 52 &&& 0x7FF).toNat
  let fraction := (bits &&& 0xFFFFFFFFFFFFF).toNat
  if field = 0 then ofBinary fraction (-1074) false
  else ofBinary (0x10000000000000 + fraction) (field - 1075) (fraction == 0 && field != 1)

/-- Whether `count * 10 ^ grid` rounds to the magnitude. -/
def holds (s : Span) (count : Nat) (grid : Int) : Bool :=
  let point := count * Nat.pow 10 grid.toNat * s.unit
  let below := s.low * Nat.pow 10 (-grid).toNat
  let above := s.high * Nat.pow 10 (-grid).toNat
  if s.closed then below ≤ point && point ≤ above else below < point && point < above

/-- The power of ten of the leading digit. -/
def leading (s : Span) : Int :=
  if s.unit ≤ s.value then (Nat.toDigits 10 (s.value / s.unit)).length - 1
  else
    let width := (Nat.toDigits 10 (s.unit / s.value)).length
    if s.unit = s.value * Nat.pow 10 (width - 1) then 1 - width else -width

/-- The multiple of `10 ^ grid` that stands for the magnitude, when one of its two neighbours on
that grid rounds to it. -/
def onGrid (s : Span) (grid : Int) : Option Nat :=
  let top := s.value * Nat.pow 10 (-grid).toNat
  let bottom := s.unit * Nat.pow 10 grid.toNat
  let count := top / bottom
  let twice := 2 * (top % bottom)
  let upper := bottom < twice || (twice == bottom && count % 2 == 1)
  match s.holds count grid, s.holds (count + 1) grid with
  | true, true => some (if upper then count + 1 else count)
  | true, false => some count
  | false, true => some (count + 1)
  | false, false => none

end Span

/-- Significant digits, without zeros at the end, read as `0.digits * 10 ^ point`. -/
structure Digits where
  /-- Decimal digits, most significant first. -/
  digits : List Char
  /-- Where the point stands, counted from the front of the digits. -/
  point : Int
  deriving DecidableEq, Repr

/-- The significant digits of `count * 10 ^ grid`. -/
def Digits.ofCount (count : Nat) (grid : Int) : Digits :=
  let all := Nat.toDigits 10 count
  { digits := (all.reverse.dropWhile (· == '0')).reverse
    point := all.length + grid }

/-- The fewest digits that round to a positive magnitude; seventeen always suffice. -/
def Span.shortest (s : Span) : Digits :=
  let lead := s.leading
  let grids := (List.range 17).map fun n : Nat => lead - n
  match grids.findSome? fun grid => (s.onGrid grid).map (·, grid) with
  | some (count, grid) => .ofCount count grid
  | none =>
    let top := s.value * Nat.pow 10 (16 - lead).toNat
    let bottom := s.unit * Nat.pow 10 (lead - 16).toNat
    .ofCount (top / bottom) (lead - 16)

end Lifecycle.Decimal
