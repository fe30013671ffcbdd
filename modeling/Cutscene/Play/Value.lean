import Cutscene.Expr.ObjectLiteral
import Cutscene.Host
import Cutscene.Statement.Condition
import Cutscene.Statement.Tree
import Cutscene.Text.Pass

/-!
Values of statements. A chain of calls goes on for as long as each call is answered with an object;
the parameters of a call are evaluated just before it, from left to right. A statement in the place
of a value is such a chain, a constant or an object literal.

Correspondence (engine ↔ here):
  `constant`       ↔ `Value.ofConstant`
  `value_of`       ↔ `Play.value`, `Play.valueBy`
  `chain`          ↔ `Play.chain`; `Play.follow` is its loop
  `arguments`      ↔ `Play.values`
  `test_condition` ↔ `Play.test`
  `enumerate`      ↔ `Play.enumerate`
-/
namespace Cutscene

open Text

/-- The value of a constant: a text in double quotes, a number, or else its own characters. -/
def Value.ofConstant (text : String) : Value :=
  match text.toList with
  | '"' :: rest =>
    if rest.getLast? = some '"' then
      .str (String.ofList (replaceAll ['\\', '"'] ['"'] rest.dropLast))
    else .str text
  | chars =>
    match Number.readInteger chars, Number.readFinite chars with
    | some n, _ => .int n
    | none, some x => .real x
    | none, none => .str text

namespace Play

variable {σ : Type}

/-- The value of an object literal; a faulty one is reported and has none. -/
def object (text : String) : Play σ (Option Value) :=
  match Expr.parseLiteral text.toList with
  | .ok v => pure (some v)
  | .error e => do
    note .warn .evaluation ("bad object literal `" ++ text ++ "`: " ++ e.message)
    return none

/-- Report a control link in the place of a value. -/
def misplaced (link : Link) : Play σ (Option Value) := do
  note .warn .evaluation ("`" ++ link.kindName ++ "` cannot be used as a value")
  return none

/-- The value of a statement in the place of one, where `resolve` gives the answer to it as a
chain of calls. -/
def valueBy (resolve : Play σ Answer) : Statement → Play σ (Option Value)
  | [] => pure none
  | .this :: _ => do return (← resolve).toValue?
  | .method .. :: _ => do return (← resolve).toValue?
  | .constant text :: _ => pure (some (.ofConstant text))
  | .object text :: _ => object text
  | link :: _ => misplaced link

mutual

/-- Go on with a chain after an answer, for as long as calls follow and objects are answered. -/
def follow (host : Host σ) (base : Option Value) (frame : Nat) :
    List Link → Answer → Play σ Answer
  | .method name params _ :: links, .object target => do
    let args ← values host base frame params
    let answer ← ask host ⟨some target, name, args.map (·.getD default), frame⟩
    follow host base frame links answer
  | _, answer => pure answer

/-- The answer to a whole chain. -/
def chain (host : Host σ) (base : Option Value) (frame : Nat) : List Link → Play σ Answer
  | .this :: links => follow host base frame links (.ofBase base)
  | .method name params _ :: links => do
    let args ← values host base frame params
    let answer ← ask host ⟨none, name, args.map (·.getD default), frame⟩
    follow host base frame links answer
  | _ => pure .absent

/-- The values of statements, from left to right. -/
def values (host : Host σ) (base : Option Value) (frame : Nat) :
    List (List Link) → Play σ (List (Option Value))
  | [] => pure []
  | statement :: statements => do
    let v ← valueBy (chain host base frame statement) statement
    let vs ← values host base frame statements
    return v :: vs

end

/-- The value of a statement in the place of one. -/
def value (host : Host σ) (base : Option Value) (frame : Nat) (statement : Statement) :
    Play σ (Option Value) :=
  valueBy (chain host base frame statement) statement

/-! ## Conditions -/

/-- The text that a call's value puts into a condition: its own if it counts as true, else zero. -/
def splicedText : Option Value → List Char
  | some v => if v.truth then v.text.toList else ['0']
  | none => ['0']

/-- A condition with the markers from number `n` on replaced by texts, one after the other. -/
def splice (n : Nat) : List (List Char) → List Char → List Char
  | [], condition => condition
  | text :: texts, condition =>
    splice (n + 1) texts (replaceAll (Condition.marker n) text condition)

/-- Whether a condition holds once its calls are answered. A faulty one is reported and does not
hold. -/
def test (host : Host σ) (base : Option Value) (frame : Nat) (params : List Statement)
    (template : String) : Play σ Bool := do
  let vs ← values host base frame params
  let condition := splice 1 (vs.map splicedText) template.toList
  match Expr.evalCondition condition with
  | .ok met => return met
  | .error e => do
    note .warn .evaluation
      ("condition `" ++ String.ofList condition ++ "` failed: " ++ e.message)
    return false

/-! ## Members -/

/-- Values without those that are the same as an earlier one. -/
def distinct (vs : List Value) : List Value :=
  vs.foldl (fun seen v => if seen.any (· == v) then seen else seen ++ [v]) []

/-- The values that a subject holds: an object's members, the items of a list, the keys of a map.
Any other value is reported and holds none. -/
def membersOf (host : Host σ) : Option Value → Play σ (List Value)
  | some (.handle h) => list host h
  | some (.list items) => pure items
  | some (.map entries) => pure (entries.map fun e => .str e.1)
  | some v => do
    note .warn .evaluation ("cannot iterate over " ++ v.typeName ++ " `" ++ v.text ++ "`")
    return []
  | none => pure []

/-- The different members of a subject. -/
def enumerate (host : Host σ) (base : Option Value) (frame : Nat) (subject : Statement) :
    Play σ (List Value) := do
  let v ← value host base frame subject
  return distinct (← membersOf host v)

end Play

end Cutscene
