import Recompile.Bytes

/-!
# Shortest decimal text of a binary number

A binary floating-point number stands for all reals that round to it. Its
shortest text has the fewest digits that name one of those reals, and among
such texts the one nearest to the number; of two equally near ones it is the
one of larger magnitude. The search runs over decimal grids in exact integer
arithmetic.
-/

namespace Recompile
namespace Decimal

structure Format where
  exponentBits : Nat
  fractionBits : Nat

def single : Format := ⟨8, 23⟩

def double : Format := ⟨11, 52⟩

inductive Reading where
  | notANumber
  | infinite (negative : Bool)
  /-- `mantissa · 2 ^ exponent`; `narrow` when the next number down is nearer than the next up. -/
  | finite (negative : Bool) (mantissa : Nat) (exponent : Int) (narrow : Bool)
deriving DecidableEq

def Format.read (format : Format) (bits : Nat) : Reading :=
  let fraction := bits % 2 ^ format.fractionBits
  let field := bits / 2 ^ format.fractionBits % 2 ^ format.exponentBits
  let negative := bits / 2 ^ (format.fractionBits + format.exponentBits) % 2 = 1
  let lowest : Int := 2 - 2 ^ (format.exponentBits - 1) - format.fractionBits
  if field = 2 ^ format.exponentBits - 1 then
    if fraction = 0 then .infinite negative else .notANumber
  else if field = 0 then .finite negative fraction lowest false
  else
    .finite negative (2 ^ format.fractionBits + fraction) (lowest + field - 1)
      (fraction = 0)

/-!
# Decimal grids

The reals that round to a number form an interval. Numerators over a common
denominator give its ends and the number itself. On the grid of multiples of
a power of ten only the two neighbours of the number need to be tested.
-/

structure Span where
  value : Nat
  lower : Nat
  upper : Nat
  denominator : Nat
  closed : Bool

/-- The reals that round to `mantissa · 2 ^ exponent`, both ends included for an even mantissa. -/
def Span.around (mantissa : Nat) (exponent : Int) (narrow : Bool) : Span :=
  let factor := 2 ^ (exponent - 2).toNat
  { value := 4 * mantissa * factor
    lower := (4 * mantissa - if narrow then 1 else 2) * factor
    upper := (4 * mantissa + 2) * factor
    denominator := 2 ^ (2 - exponent).toNat
    closed := mantissa % 2 = 0 }

/-- The point of the grid of multiples of `10 ^ place` that names the number, if there is one. -/
def Span.atGrid? (span : Span) (place : Int) : Option Nat :=
  let step := 10 ^ place.toNat * span.denominator
  let scale := 10 ^ (-place).toNat
  let below := span.value * scale / step
  let reachesBelow :=
    if span.closed then span.lower * scale ≤ below * step
    else span.lower * scale < below * step
  let reachesAbove :=
    if span.closed then (below + 1) * step ≤ span.upper * scale
    else (below + 1) * step < span.upper * scale
  if reachesBelow ∧ reachesAbove then
    if step ≤ 2 * (span.value * scale - below * step) then some (below + 1)
    else some below
  else if reachesBelow then some below
  else if reachesAbove then some (below + 1)
  else none

def Span.top (span : Span) : Int :=
  if span.denominator ≤ span.value then
    (Nat.toDigits 10 (span.value / span.denominator)).length
  else
    2 - ((Nat.toDigits 10 (span.denominator / span.value)).length : Int)

/-- The first grid, from coarse to fine, with a point that names the number. -/
def Span.search (span : Span) : Nat → Int → Nat × Int
  | 0, place => (span.value * 10 ^ (-place).toNat / (10 ^ place.toNat * span.denominator), place)
  | grids + 1, place =>
    match span.atGrid? place with
    | some point => (point, place)
    | none => span.search grids (place - 1)

def gridLimit : Nat := 24

def positional (digits : Nat) (place : Int) : String :=
  let text := Nat.toDigits 10 digits
  if 0 ≤ place then String.ofList (text ++ List.replicate place.toNat '0')
  else
    let fraction := (-place).toNat
    let padded := List.replicate (fraction + 1 - text.length) '0' ++ text
    let whole := padded.length - fraction
    String.ofList (padded.take whole ++ '.' :: padded.drop whole)

def sign (negative : Bool) : String :=
  if negative then "-" else ""

def Format.text (format : Format) (bits : Nat) : String :=
  match format.read bits with
  | .notANumber => "NaN"
  | .infinite negative => sign negative ++ "inf"
  | .finite negative 0 _ _ => sign negative ++ "0"
  | .finite negative mantissa exponent narrow =>
    let span := Span.around mantissa exponent narrow
    let (digits, place) := span.search gridLimit span.top
    sign negative ++ positional digits place

end Decimal
end Recompile
