/-!
The parsed form of a script. A block is a list of statements, and a statement is a chain of links
that points join in the source. The tree says what to do and holds nothing of how far a run has
come, so one block can be run any number of times at once.

Correspondence (engine ↔ here):
  `ConditionKind`, `from_name`, `name` ↔ `Arm`, `Arm.ofName`, `Arm.name`
  `Link`, `Link::kind_name`            ↔ `Link`, `Link.kindName`
  `Statement`, `Block`                 ↔ `Statement`, `Block`
  `Statement::is_simultaneous`         ↔ `Statement.isSimultaneous`
  `Statement::is_alternative`          ↔ `Statement.isAlternative`
-/
namespace Cutscene

/-- Which arm of a conditional chain a link is. -/
inductive Arm where
  | ifArm | elifArm | elseArm
  deriving DecidableEq, Repr

/-- The word that begins an arm. -/
def Arm.name : Arm → String
  | .ifArm => "if"
  | .elifArm => "elif"
  | .elseArm => "else"

/-- The arm that a word begins. -/
def Arm.ofName : String → Option Arm
  | "if" => some .ifArm
  | "elif" => some .elifArm
  | "else" => some .elseArm
  | _ => none

/-- One element of a chain. -/
inductive Link where
  /-- A call with its parameters. A simultaneous one was written with a leading plus. -/
  | method (name : String) (params : List (List Link)) (simultaneous : Bool)
  /-- The member that an `each` is at, or the value that the caller gave. -/
  | this
  /-- An arm of a conditional chain. The calls in its condition are `params`; `template` is the
  condition with a marker in the place of each of them. -/
  | conditional (arm : Arm) (params : List (List Link)) (template : String)
      (body : List (List Link))
  /-- A body that is run for every member of the subject. -/
  | each (subject : List Link) (body : List (List Link))
  /-- A body that is run once for every integer from `low` up to but not including `high`. -/
  | range (low high : List Link) (body : List (List Link))
  /-- A number, a quoted text or a bare name. -/
  | constant (text : String)
  /-- An object literal, as it was written. -/
  | object (text : String)

/-- A chain of links. -/
abbrev Statement := List Link

/-- Statements in their order. -/
abbrev Block := List Statement

/-- What messages and listings call a link. -/
def Link.kindName : Link → String
  | .method .. => "method"
  | .this => "this"
  | .conditional arm .. => arm.name
  | .each .. => "each"
  | .range .. => "range"
  | .constant _ => "constant"
  | .object _ => "object"

/-- Whether a statement runs alongside the one before it. -/
def Statement.isSimultaneous : Statement → Bool
  | .method _ _ simultaneous :: _ => simultaneous
  | _ => false

/-- Whether a statement is an arm that is passed over once an earlier arm was taken. -/
def Statement.isAlternative : Statement → Bool
  | .conditional arm .. :: _ => arm ≠ .ifArm
  | _ => false

end Cutscene
