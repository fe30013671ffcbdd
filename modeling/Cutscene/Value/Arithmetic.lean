import Cutscene.Expr.Error
import Cutscene.Value

/-!
Arithmetic and comparison of values. Numbers are computed as reals; the result is an integer again
unless an operand is a real or a text with a point. A text that is no number is joined by addition
and compared by its characters.

Correspondence (engine ↔ here):
  `Value::numeric_promote`                     ↔ `isFractional`, `lift`
  `Value::make_numeric`                        ↔ `ofResult`
  `Value::arith_add`, `arith_sub`, `arith_mul` ↔ `add`, `sub`, `mul`
  `Value::arith_div`, `arith_rem`, `arith_neg` ↔ `div`, `rem`, `neg`
  `Value::cmp_value`                           ↔ `compare`
-/
namespace Cutscene.Value

/-- Whether an operand makes the result a real. -/
def isFractional : Value → Bool
  | .real _ => true
  | .str s => s.toList.contains '.'
  | _ => false

/-- A result as a value: a real, or else the integer it is cut off to. -/
def ofResult (fractional : Bool) (x : Float) : Value := if fractional then .real x else .int x.toInt64

/-- An operation on reals as one on values. -/
def lift (op : Float → Float → Float) (a b : Value) : Value :=
  ofResult (a.isFractional || b.isFractional) (op a.toReal b.toReal)

/-- Whether a value is a text that is no number. -/
def isProse : Value → Bool
  | .str s => (Value.str s).numeric.isNone
  | _ => false

/-- The sum of two values, or their texts joined if one of them is a text that is no number. -/
def add (a b : Value) : Value :=
  if a.isProse || b.isProse then .str (a.text ++ b.text) else lift (· + ·) a b

/-- The difference of two values. -/
def sub (a b : Value) : Value := lift (· - ·) a b

/-- The product of two values. -/
def mul (a b : Value) : Value := lift (· * ·) a b

/-- The quotient of two values. -/
def div (a b : Value) : Except ExprError Value :=
  if b.toReal == 0 then .error .divisionByZero else .ok (lift (· / ·) a b)

/-- The remainder of two values, with the sign of the first. -/
def rem (a b : Value) : Except ExprError Value :=
  if b.toReal == 0 then .error .moduloByZero else .ok (lift Number.remainder a b)

/-- The opposite of a value; zero if it is no number. -/
def neg : Value → Value
  | .int n => .int (-n)
  | .real x => .real (-x)
  | .str s =>
    let digits := Text.trim s.toList
    match Number.readInteger digits, Number.readReal digits with
    | some n, _ => .int (-n)
    | none, some x => .real (-x)
    | none, none => .int 0
  | _ => .int 0

/-- The order of two reals. One that is not a number counts as equal to everything. -/
def compareReal (x y : Float) : Ordering :=
  if x < y then .lt else if y < x then .gt else .eq

/-- The order of two values: as numbers if both are, else by their texts. -/
def compare (a b : Value) : Ordering :=
  match a.numeric, b.numeric with
  | some x, some y => compareReal x y
  | _, _ => Ord.compare a.text b.text

end Cutscene.Value
