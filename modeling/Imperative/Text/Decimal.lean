/-!
# Decimal text of binary fractions

Doubles are written in decimal without exponents.  A double without fractional part is
written with all its digits, exactly, followed by `.0`; any other one with the *fewest
decimal places that read back as the same double*.

Everything happens in exact arithmetic on natural numbers.  The magnitude of a finite
double is a multiple of the smallest positive one, `2⁻¹⁰⁷⁴`.  The reals that round to it
form an interval around it, which reaches half way to its two neighbours and holds its
ends exactly if the significand is even; one more pair of binary places, `2⁻¹⁰⁷⁶` as the
unit, makes the ends whole numbers too (`Interval`).  A decimal with `d` places reads back
exactly if it lies in that interval, and if any does, so does one of the two nearest to
the value; so those two are tried for `d = 0, 1, 2, …`.  Of two that both read back the
nearer one is written, and of two equally near ones the larger.
-/

namespace Imperative.Text

/-- What the 64 bits of a double say. -/
inductive Double where
  | notANumber
  | infinite (negative : Bool)
  /-- The magnitude is `significand · 2 ^ shift · 2⁻¹⁰⁷⁴`. -/
  | finite (negative : Bool) (significand shift : Nat)
  deriving DecidableEq, Repr

/-- Reads sign, exponent and fraction off the bits.  A zero exponent field marks the
subnormal numbers, which lack the leading one of the others. -/
def Double.ofBits (bits : UInt64) : Double :=
  let negative := bits.toNat >>> 63 == 1
  let field := (bits.toNat >>> 52) % 2048
  let fraction := bits.toNat % (1 <<< 52)
  if field = 2047 then
    if fraction = 0 then .infinite negative else .notANumber
  else if field = 0 then .finite negative fraction 0
  else .finite negative ((1 <<< 52) + fraction) (field - 1)

/-- The reals that round to a magnitude, in units of `2⁻¹⁰⁷⁶`. -/
structure Interval where
  low : Nat
  value : Nat
  high : Nat
  /-- Whether the two ends round to the value as well. -/
  closed : Bool
  deriving Repr

namespace Interval

/-- The number of units in one. -/
def unit : Nat := 1 <<< 1076

/-- The interval of `significand · 2 ^ shift · 2⁻¹⁰⁷⁴`.  Below a power of two the doubles
lie twice as dense, so there the lower end is nearer. -/
def ofFinite (significand shift : Nat) : Interval where
  value := (4 * significand) <<< shift
  low := (4 * significand - if significand = 1 <<< 52 ∧ 0 < shift then 1 else 2) <<< shift
  high := (4 * significand + 2) <<< shift
  closed := significand % 2 == 0

/-- Whether the decimal `n · 10⁻ᵈ` lies in the interval. -/
def holds (i : Interval) (n d : Nat) : Bool :=
  let point := n * unit
  let low := i.low * Nat.pow 10 d
  let high := i.high * Nat.pow 10 d
  if i.closed then low ≤ point && point ≤ high else low < point && point < high

/-- A decimal with `d` places that reads back: the nearest one below or above the value,
whichever is nearer if both do, the one above if they are equally near. -/
def point? (i : Interval) (d : Nat) : Option Nat :=
  let scaled := i.value * Nat.pow 10 d
  let below := scaled / unit
  let above := below + 1
  if i.holds below d && (!i.holds above d || scaled - below * unit < above * unit - scaled) then
    some below
  else if i.holds above d then some above
  else none

/-- The least number of decimal places that read back, with the digits.  With 1074 places
every double is exact, so the search ends there at the latest. -/
def fewestPlaces (i : Interval) : Nat × Nat :=
  ((List.range 1075).findSome? fun d => (i.point? d).map (d, ·)).getD (0, 0)

end Interval

/-- The text of `n · 10⁻ᵈ` with all of its `d` places. -/
def positional (d n : Nat) : String :=
  let places := toString (n % Nat.pow 10 d)
  toString (n / Nat.pow 10 d) ++ "."
    ++ String.ofList (List.replicate (d - places.length) '0') ++ places

namespace Double

/-- The text of a magnitude: exact if it is whole, else with the fewest places. -/
def magnitudeText (significand shift : Nat) : String :=
  let i := Interval.ofFinite significand shift
  if i.value % Interval.unit = 0 then toString (i.value / Interval.unit) ++ ".0"
  else
    let (d, n) := i.fewestPlaces
    positional d n

/-- The text of a double.  A sign is written for negative numbers, minus zero included, and
never for what is not a number. -/
def text : Double → String
  | notANumber => "NaN"
  | infinite negative => (if negative then "-" else "") ++ "inf"
  | finite negative significand shift =>
    (if negative then "-" else "") ++ magnitudeText significand shift

end Double

end Imperative.Text
