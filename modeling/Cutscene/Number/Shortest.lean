import Cutscene.Number.Binary

/-!
The fewest decimal digits that name a double. A double stands for all reals that round to it; of
the decimals with the fewest digits among these, the nearest to the double is taken, and the
greater one of two that are equally near.

Correspondence (engine ↔ here):
  the digits that `f64` is displayed with ↔ `shortest`
-/
namespace Cutscene.Number

/-- The decimal `digits · 10 ^ exponent`. -/
structure Decimal where
  digits : Nat
  exponent : Int
  deriving DecidableEq, Repr

/-- The reals that round to a double, in quarters of its last binary place: they reach two
quarters up, and as far down unless the double below lies nearer. The ends count if the mantissa
is even. -/
structure Interval where
  low : Nat
  mid : Nat
  high : Nat
  closed : Bool

/-- The reals that round to a double of the given size. -/
def Interval.of (b : Binary) : Interval :=
  let mid := 4 * b.mantissa
  let below := if b.mantissa = exponentWeight && leastExponent < b.exponent then 1 else 2
  ⟨mid - below, mid, mid + 2, b.mantissa % 2 = 0⟩

/-- Whether `g · step` lies in the interval scaled by `unit`. -/
def Interval.contains (i : Interval) (step unit g : Nat) : Bool :=
  if i.closed then i.low * unit ≤ g * step && g * step ≤ i.high * unit
  else i.low * unit < g * step && g * step < i.high * unit

/-- The multiple of `step` in the interval that is nearest to its middle, as its factor. -/
def Interval.nearest (i : Interval) (step unit : Nat) : Option Nat :=
  let below := i.mid * unit / step
  match i.contains step unit below, i.contains step unit (below + 1) with
  | true, true =>
    if 2 * (i.mid * unit) < (2 * below + 1) * step then some below else some (below + 1)
  | true, false => some below
  | false, true => some (below + 1)
  | false, false => none

/-- The number of decimal digits of a natural number. -/
def digitCount (n : Nat) : Nat := (Nat.toDigits 10 n).length

/-- The place of the decimal point in a size above zero: `10 ^ (p - 1) ≤ size < 10 ^ p`. -/
def pointPlace (b : Binary) : Int :=
  if 0 ≤ b.exponent then digitCount (b.mantissa <<< b.exponent.toNat)
  else
    let den := 1 <<< (-b.exponent).toNat
    if den ≤ b.mantissa then digitCount (b.mantissa / den)
    else 1 - (digitCount (den / b.mantissa) : Int)

/-- The decimal with `count` digits, or the first larger number of digits that has one, that names
a size; `more` bounds how many numbers of digits are tried. -/
def shortestFrom (b : Binary) (count : Nat) : Nat → Decimal
  | 0 => ⟨b.mantissa, b.exponent⟩
  | more + 1 =>
    let exponent := pointPlace b - count
    let scale := b.exponent - 2
    let step := Nat.pow 10 exponent.toNat <<< (-scale).toNat
    let unit := Nat.pow 10 (-exponent).toNat <<< scale.toNat
    match (Interval.of b).nearest step unit with
    | some digits =>
      if digits = Nat.pow 10 count then ⟨1, exponent + count⟩ else ⟨digits, exponent⟩
    | none => shortestFrom b (count + 1) more

/-- The shortest decimal that names a size above zero. Seventeen digits always suffice. -/
def shortest (b : Binary) : Decimal := shortestFrom b 1 17

end Cutscene.Number
