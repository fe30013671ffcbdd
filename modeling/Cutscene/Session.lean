import Cutscene.Registry
import Cutscene.Session.Vars

/-!
The session: variables and the lines that scripts write. Every host gets these methods:

* `session(name)` gives the variable of that name, with `get`, `set`, `setConcat`, `increment`,
  `setRandomly`, `equals` and `notEquals`;
* `sessions(start)` gives the group of variables whose names start so, for use with `each`;
* `debug(…)` writes a line;
* `frame()` is the number of frames of the calling statement.

The methods that change a variable give it back, so that calls can be chained. All of them answer by
the session alone but `setRandomly`, which draws. A session has the numbers that are still to be drawn,
and any numbers may be.

Correspondence (engine ↔ here):
  `Session`, `take_output`   ↔ `Session`, `Session.takeOutput`
  `SESSION`, `SESSIONS`      ↔ `Session.variableKind`, `groupKind`
  `session_bridge`           ↔ `Session.registry`
  `get`, `update`, `compare` ↔ `Session.get`, `update`, `compare`
  `numeric`                  ↔ `Session.number`
  `choose` with `thread_rng` ↔ `Session.pick` with `Session.chance`
-/
namespace Cutscene

/-- Variables, and the lines written since they were last taken. -/
structure Session where
  vars : Vars := {}
  output : List String := []
  /-- The numbers that are drawn from here on. -/
  chance : Nat → Nat := fun _ => 0

namespace Session

/-- The kind of a variable. -/
def variableKind : String := "session"

/-- The kind of a group of variables. -/
def groupKind : String := "sessions"

/-- A session with no lines waiting. -/
def takeOutput (session : Session) : Session := { session with output := [] }

/-- The value of a variable's text if it is a number. -/
def number (raw : String) : Option Value :=
  let digits := Text.trim raw.toList
  match Number.readInteger digits, Number.readFinite digits with
  | some n, _ => some (.int n)
  | none, some x => some (.real x)
  | none, none => none

/-- A text in single quotes, so that a condition can compare it. -/
def quoted (raw : String) : String :=
  "'" ++ String.ofList (raw.toList.flatMap fun c => if c = '\'' then ['\\', c] else [c]) ++ "'"

/-- A variable's text as a value: unchanged, as an integer, or so that it fits a condition. -/
def valueOf (mode raw : String) : Value :=
  match mode with
  | "unwrapped" => .str raw
  | "integer" => (number raw).getD (.int 0)
  | _ => if (number raw).isSome then .str raw else .str (quoted raw)

/-- Pick one of several texts by the next number, and give it with the numbers behind. Of no texts the
empty one is picked, and no number is drawn. -/
def pick (texts : List String) (chance : Nat → Nat) : String × (Nat → Nat) :=
  if texts.isEmpty then ("", chance)
  else (texts.getD (chance 0 % texts.length) "", fun index => chance (index + 1))

/-! ## Methods -/

/-- The variable that the first parameter names. -/
def select : Handler Session := fun call session =>
  match call.params with
  | name :: _ => { result := .object ⟨variableKind, name.text⟩, state := session }
  | [] => { result := .absent, state := session }

/-- The group of variables whose names start with the first parameter. -/
def selectGroup : Handler Session := fun call session =>
  { result := .object ⟨groupKind, call.paramText 0⟩, state := session }

/-- Write the parameters as a line. -/
def debug : Handler Session := fun call session =>
  let line := String.intercalate " " (call.params.map Value.text)
  { result := .absent
    state := { session with output := session.output ++ [line] }
    records := [⟨.info, .output, line⟩] }

/-- The frames of the calling statement. -/
def frame : Handler Session := fun call session =>
  { result := .value (.int (Int64.ofNat call.frame)), state := session }

/-- The value of a variable. -/
def get : Handler Session := fun call session =>
  match call.target with
  | some target =>
    { result := .value (valueOf (call.paramText 0) (session.vars.get target.id)), state := session }
  | none => { result := .absent, state := session }

/-- Change the variables by a target's name, and give the target back. -/
def update (change : Call → Vars → String → Vars) : Handler Session := fun call session =>
  match call.target with
  | some target =>
    { result := .object target
      state := { session with vars := change call session.vars target.id } }
  | none => { result := .absent, state := session }

/-- Set a variable to one of the parameters. -/
def setRandomly : Handler Session := fun call session =>
  let picked := pick (call.params.map Value.text) session.chance
  update (fun _ vars name => vars.set name picked.1) call { session with chance := picked.2 }

/-- Whether a variable's text is the first parameter's, or whether it is not. -/
def compare (wanted : Bool) : Handler Session := fun call session =>
  match call.target with
  | some target =>
    let same : Bool := session.vars.get target.id = call.paramText 0
    { result := .value (.ofBool (same == wanted)), state := session }
  | none => { result := .absent, state := session }

/-- The amount that a call adds to a variable: one, if it does not say. -/
def amount (call : Call) : Float := ((call.params[0]?).map Value.toReal).getD 1

/-- The variables of a group, in the order of their names. -/
def variablesIn : Enumerator Session := fun group session =>
  (session.vars.namesFrom group.id).map fun name => .handle ⟨variableKind, name⟩

/-- The methods of a session. -/
def registry : Registry Session :=
  Registry.root {} "session" select
    |>.root "sessions" selectGroup
    |>.root "debug" debug
    |>.root "frame" frame
    |>.on variableKind "get" get
    |>.on variableKind "set" (update fun call vars name => vars.set name (call.paramText 0))
    |>.on variableKind "setConcat"
      (update fun call vars name => vars.set name (String.join (call.params.map Value.text)))
    |>.on variableKind "increment"
      (update fun call vars name => vars.increment name (amount call))
    |>.on variableKind "setRandomly" setRandomly
    |>.on variableKind "equals" (compare true)
    |>.on variableKind "notEquals" (compare false)
    |>.membersOf groupKind variablesIn

end Session

end Cutscene
