import Cutscene.Keyed
import Cutscene.Number.Reader
import Cutscene.Number.Text
import Cutscene.Text.Blank

/-!
The values of a script: integers, reals, texts, handles to objects of the host, lists and maps.
Scripts are loosely typed, so every value has a truth, a text and, where one can be read from it, a
number.

Correspondence (engine ↔ here):
  `Handle`                            ↔ `Handle`
  `Value`                             ↔ `Value`
  `Value::as_bool`                    ↔ `Value.truth`
  `Value::as_int`                     ↔ `Value.toInteger`
  `Value::numeric`, `Value::as_float` ↔ `Value.numeric`, `Value.toReal`
  `Value::as_str`                     ↔ `Value.text`
  `Value::type_name`                  ↔ `Value.typeName`
  the equality of `Value`             ↔ `Value.same`
-/
namespace Cutscene

/-- A reference to an object that the host keeps. -/
structure Handle where
  kind : String
  id : String
  deriving DecidableEq, Repr

/-- A handle's kind and name with a colon between them. -/
def Handle.text (h : Handle) : String := h.kind ++ ":" ++ h.id

/-- A value. The entries of a map are kept in the order of their keys, each key once. -/
inductive Value where
  | int (n : Int64)
  | real (x : Float)
  | str (s : String)
  | handle (h : Handle)
  | list (items : List Value)
  | map (entries : List (String × Value))

namespace Value

/-- The value of a parameter that produced nothing: the empty text. -/
instance : Inhabited Value := ⟨.str ""⟩

/-- A truth as a value: one or zero. -/
def ofBool (b : Bool) : Value := .int (if b then 1 else 0)

/-- What kind of value it is, as messages call it. -/
def typeName : Value → String
  | .int _ => "integer"
  | .real _ => "real"
  | .str _ => "string"
  | .handle _ => "object"
  | .list _ => "list"
  | .map _ => "map"

/-! ## The text of a value -/

mutual

/-- The text of a value. -/
def text : Value → String
  | .int n => Number.integerText n
  | .real x => Number.shown x
  | .str s => s
  | .handle h => h.text
  | .list items => "[" ++ String.intercalate ", " (texts items) ++ "]"
  | .map entries => "\x7b" ++ String.intercalate ", " (entryTexts entries) ++ "\x7d"

/-- The texts of the items of a list. -/
def texts : List Value → List String
  | [] => []
  | v :: rest => text v :: texts rest

/-- The texts of the entries of a map. -/
def entryTexts : List (String × Value) → List String
  | [] => []
  | (key, v) :: rest => (key ++ ": " ++ text v) :: entryTexts rest

end

/-! ## Sameness

Values are the same if they are of one kind and hold the same. An integer is never the same as a
real, a real that is not a number is not even the same as itself, and both zeros are the same. -/

mutual

/-- Whether two values are the same. -/
def same : Value → Value → Bool
  | .int m, .int n => m = n
  | .real x, .real y => x == y
  | .str s, .str t => s = t
  | .handle h, .handle k => h = k
  | .list xs, .list ys => sameItems xs ys
  | .map xs, .map ys => sameEntries xs ys
  | _, _ => false

/-- Whether two lists hold the same values in the same order. -/
def sameItems : List Value → List Value → Bool
  | [], [] => true
  | x :: xs, y :: ys => same x y && sameItems xs ys
  | _, _ => false

/-- Whether two maps hold the same values under the same keys. -/
def sameEntries : List (String × Value) → List (String × Value) → Bool
  | [], [] => true
  | (j, x) :: xs, (k, y) :: ys => j = k && same x y && sameEntries xs ys
  | _, _ => false

end

instance : BEq Value := ⟨same⟩

/-! ## Truth and number -/

/-- Whether a value counts as true. Zero, the empty text, the text `0` and empty collections do
not. -/
def truth : Value → Bool
  | .int n => n ≠ 0
  | .real x => x != 0
  | .str s => s ≠ "" && s ≠ "0"
  | .handle _ => true
  | .list items => !items.isEmpty
  | .map entries => !entries.isEmpty

/-- The integer that a value stands for: a real is cut off toward zero and held inside 64 bits, a
text is read, and everything else is zero. -/
def toInteger : Value → Int64
  | .int n => n
  | .real x => x.toInt64
  | .str s =>
    let digits := Text.trim s.toList
    match Number.readInteger digits with
    | some n => n
    | none => ((Number.readReal digits).map Float.toInt64).getD 0
  | _ => 0

/-- The real number that can be read from a value, if there is one. -/
def numeric : Value → Option Float
  | .int n => some n.toFloat
  | .real x => some x
  | .str s => Number.readFinite (Text.trim s.toList)
  | _ => none

/-- The real number that a value stands for, zero if it has none. -/
def toReal (v : Value) : Float := v.numeric.getD 0

end Value

end Cutscene
