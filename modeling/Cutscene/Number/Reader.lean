import Cutscene.Number.Binary

/-!
Reading numbers. An integer is an optional sign and digits, and must fit 64 bits. A real number is
an optional sign and either a name (`inf`, `infinity`, `nan` in any case) or digits with at most
one point among them and an optional exponent; it is rounded to the nearest double. No blank and no
other character is accepted.

Correspondence (engine ↔ here):
  `i64::from_str`                   ↔ `readInteger`
  `u64::from_str`                   ↔ `readNatural`
  `f64::from_str`                   ↔ `readReal`
  `f64::from_str`, then `is_finite` ↔ `readFinite`
-/
namespace Cutscene.Number

/-- The number that a row of decimal digits stands for, behind digits already read. -/
def ofDigits (text : List Char) : Nat :=
  text.foldl (fun n c => 10 * n + (c.toNat - '0'.toNat)) 0

/-- Whether a text is a row of digits, at least one. -/
def isDigits (text : List Char) : Bool := !text.isEmpty && text.all Char.isDigit

/-- A leading sign, true for minus, and the text behind it. -/
def splitSign : List Char → Bool × List Char
  | '-' :: rest => (true, rest)
  | '+' :: rest => (false, rest)
  | text => (false, text)

/-- The integer that a text spells. -/
def readInteger (text : List Char) : Option Int64 :=
  let (negative, digits) := splitSign text
  if !isDigits digits then none
  else
    let n : Int := if negative then -(ofDigits digits : Int) else ofDigits digits
    if Int64.minValue.toInt ≤ n && n ≤ Int64.maxValue.toInt then some (Int64.ofInt n) else none

/-- The natural number below `2 ^ 64` that a text spells. A plus sign is allowed. -/
def readNatural (text : List Char) : Option Nat :=
  let digits := if text.head? = some '+' then text.drop 1 else text
  if isDigits digits && ofDigits digits < UInt64.size then some (ofDigits digits) else none

/-- The exponent that ends a real number, zero if there is none. -/
def readExponent : List Char → Option Int
  | [] => some 0
  | e :: rest =>
    if e = 'e' || e = 'E' then
      let (negative, digits) := splitSign rest
      if isDigits digits then
        some (if negative then -(ofDigits digits : Int) else ofDigits digits)
      else none
    else none

/-- The double nearest to `digits · 10 ^ exponent`. The bounds keep a far exponent from being
computed: above the first every such number is infinite, below the second it is zero. -/
def ofDecimal (digits : Nat) (exponent : Int) : Float :=
  let place := exponent + (Nat.toDigits 10 digits).length
  if digits = 0 || place < -330 then 0
  else if 310 < place then Float.ofBits infinityBits.toUInt64
  else if 0 ≤ exponent then ofRatio (digits * Nat.pow 10 exponent.toNat) 1
  else ofRatio digits (Nat.pow 10 (-exponent).toNat)

/-- The size of a real number that is spelled in digits. -/
def readDigits (text : List Char) : Option Float := do
  let whole := text.takeWhile Char.isDigit
  let rest := text.dropWhile Char.isDigit
  let (fraction, rest) :=
    if rest.head? = some '.' then
      ((rest.drop 1).takeWhile Char.isDigit, (rest.drop 1).dropWhile Char.isDigit)
    else ([], rest)
  let exponent ← readExponent rest
  if (whole ++ fraction).isEmpty then none
  else some (ofDecimal (ofDigits (whole ++ fraction)) (exponent - fraction.length))

/-- The size of a real number that is spelled by name. -/
def readName (text : List Char) : Option Float :=
  match text.map Char.toLower with
  | ['i', 'n', 'f'] | ['i', 'n', 'f', 'i', 'n', 'i', 't', 'y'] =>
    some (Float.ofBits infinityBits.toUInt64)
  | ['n', 'a', 'n'] => some (0.0 / 0.0)
  | _ => none

/-- The real number that a text spells. -/
def readReal (text : List Char) : Option Float :=
  let (negative, size) := splitSign text
  ((readName size).or (readDigits size)).map (withSign negative)

/-- The real number that a text spells, unless it is not finite. -/
def readFinite (text : List Char) : Option Float := (readReal text).filter Float.isFinite

end Cutscene.Number
