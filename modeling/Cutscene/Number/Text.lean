import Cutscene.Number.Shortest

/-!
The texts of numbers. Three layouts share the shortest digits of a double: the plain one, which
never has an exponent; the one of a value shown to a player, which marks a double by a point; and
the one of a token in an error, which turns to an exponent for the very large and the very small.

Correspondence (engine ↔ here):
  `i64` displayed                            ↔ `integerText`
  `f64` displayed                            ↔ `plain`
  a double in `Value::as_str`                ↔ `shown`
  a double in an error that quotes its token ↔ `tokenText`
  `VarStore::increment`, the text it stores  ↔ `sumText`
-/
namespace Cutscene.Number

/-- The text of an integer. -/
def integerText (n : Int64) : String := toString n.toInt

/-- A decimal written without an exponent. -/
def Decimal.positional (d : Decimal) : String :=
  let digits := Nat.toDigits 10 d.digits
  if 0 ≤ d.exponent then String.ofList (digits ++ List.replicate d.exponent.toNat '0')
  else
    let places := (-d.exponent).toNat
    if places < digits.length then
      let whole := digits.length - places
      String.ofList (digits.take whole ++ '.' :: digits.drop whole)
    else String.ofList ('0' :: '.' :: List.replicate (places - digits.length) '0' ++ digits)

/-- A decimal written with one digit before the point and an exponent. -/
def Decimal.scientific (d : Decimal) : String :=
  let digits := Nat.toDigits 10 d.digits
  let exponent := d.exponent + digits.length - 1
  let fraction := if digits.length = 1 then [] else '.' :: digits.drop 1
  String.ofList (digits.take 1 ++ fraction) ++ "e" ++ toString exponent

/-- A text with a point behind it if it has none yet. -/
def pointed (text : String) : String := if text.toList.contains '.' then text else text ++ ".0"

/-- The sign of a double, a size written by `write`, and the names of what is not finite. -/
def written (write : Binary → String) (x : Float) : String :=
  if x.isNaN then "NaN"
  else (if isNegative x then "-" else "") ++ if x.isInf then "inf" else write (binary x)

/-- A double in its shortest digits, without an exponent and without a point if it is whole. -/
def plain : Float → String :=
  written fun b => if b.mantissa = 0 then "0" else (shortest b).positional

/-- Whether a double is whole and below `10 ^ 15`, so that it reads like an integer. -/
def isPlainWhole (x : Float) : Bool := x.floor == x && x.abs < 1e15

/-- A double as it is shown to a player: a whole one below `10 ^ 15` ends in `.0`. -/
def shown (x : Float) : String := if isPlainWhole x then pointed (plain x) else plain x

/-- The least and the greatest place of the point that a token writes without an exponent. -/
def tokenPlaces : Int × Int := (-3, 16)

/-- A double as it stands in the name of a token: always with a point or an exponent. -/
def tokenText : Float → String :=
  written fun b =>
    if b.mantissa = 0 then "0.0"
    else
      let d := shortest b
      let place := d.exponent + digitCount d.digits
      if tokenPlaces.1 ≤ place && place ≤ tokenPlaces.2 then pointed d.positional
      else d.scientific

/-- The text of a sum kept in a variable: an integer if it is whole and below `10 ^ 15`. -/
def sumText (x : Float) : String := if isPlainWhole x then integerText x.toInt64 else plain x

end Cutscene.Number
