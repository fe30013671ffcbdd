/-!
Doubles as exact numbers. A finite double is a sign and `mantissa · 2 ^ exponent`; `ofRatio` goes
the other way and gives the double nearest to a quotient of natural numbers, ties to the even
mantissa. Everything between the two is exact arithmetic on natural numbers.

Correspondence (engine ↔ here):
  a finite double                     ↔ `binary`
  rounding in `f64::from_str`         ↔ `ofRatio`
  the remainder in `Value::arith_rem` ↔ `remainder`
-/
namespace Cutscene.Number

/-- The size of a finite double: `mantissa · 2 ^ exponent`. -/
structure Binary where
  mantissa : Nat
  exponent : Int
  deriving DecidableEq, Repr

/-- The exponent of the least positive double. -/
def leastExponent : Int := -1074

/-- The bits of positive infinity, the least that belong to no finite double. -/
def infinityBits : Nat := 0x7FF0000000000000

/-- The weight of the sign bit. -/
def signWeight : Nat := 0x8000000000000000

/-- The weight of the least exponent bit, which is also that of the leading bit that a mantissa has
unless its exponent is the least one. -/
def exponentWeight : Nat := 0x10000000000000

/-- Whether the sign bit of a double is set. -/
def isNegative (x : Float) : Bool := signWeight ≤ x.toBits.toNat

/-- The size of a double, taken to be finite. -/
def binary (x : Float) : Binary :=
  let bits := x.toBits.toNat % signWeight
  let biased : Nat := bits / exponentWeight
  let fraction := bits % exponentWeight
  if biased = 0 then ⟨fraction, leastExponent⟩
  else ⟨fraction + exponentWeight, (biased : Int) - 1075⟩

/-- A quotient rounded to the nearest natural number, a half to the even one. -/
def roundHalfEven (num den : Nat) : Nat :=
  let low := num / den
  let twice := 2 * (num % den)
  if twice < den then low
  else if twice = den then low + low % 2
  else low + 1

/-- The greatest `e` with `2 ^ e ≤ num / den`. -/
def floorLog2 (num den : Nat) : Int :=
  let guess : Int := (num.log2 : Int) - (den.log2 : Int)
  let fits := if 0 ≤ guess then den <<< guess.toNat ≤ num else den ≤ num <<< (-guess).toNat
  if fits then guess else guess - 1

/-- The double nearest to `num / den`, or infinity if that lies beyond all doubles. -/
def ofRatio (num den : Nat) : Float :=
  if num = 0 then 0
  else
    let exponent := max (floorLog2 num den - 52) leastExponent
    let mantissa :=
      if 0 ≤ exponent then roundHalfEven num (den <<< exponent.toNat)
      else roundHalfEven (num <<< (-exponent).toNat) den
    let bits := (exponent - leastExponent).toNat * exponentWeight + mantissa
    Float.ofBits (min bits infinityBits).toUInt64

/-- A double with the given sign and the size of another one. -/
def withSign (negative : Bool) (x : Float) : Float := if negative then -x else x

/-- What is left of a finite double divided by another that is not zero, with the sign of the
first. It is exact. -/
def remainder (x y : Float) : Float :=
  if x.isNaN || y.isNaN || x.isInf then 0.0 / 0.0
  else if y.isInf then x
  else
    let a := binary x
    let b := binary y
    let least := min a.exponent b.exponent
    let rest := (a.mantissa <<< (a.exponent - least).toNat) %
      (b.mantissa <<< (b.exponent - least).toNat)
    let size :=
      if 0 ≤ least then ofRatio (rest <<< least.toNat) 1 else ofRatio rest (1 <<< (-least).toNat)
    withSign (isNegative x) size

end Cutscene.Number
