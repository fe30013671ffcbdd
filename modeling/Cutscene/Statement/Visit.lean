import Cutscene.Statement.Reader

/-!
The texts nested in a statement, in the order in which reading comes to them, and the sources that
reading a block makes ready on its way, up to the first fault.

Correspondence (engine ↔ here):
  the texts that `preprocess` traces ↔ `Block.sources`
-/
namespace Cutscene

/-- A text nested in a statement. -/
inductive Nested where
  | statement (text : List Char)
  | block (text : List Char)
  deriving DecidableEq, Repr

/-- The characters of a nested text. -/
def Nested.text : Nested → List Char
  | .statement text => text
  | .block text => text

namespace Shape

/-- The body of a control link as a nested text, or the fault in it. -/
def nestedBody : Except ScriptFault (Option (List Char)) → List (Except ScriptFault Nested)
  | .error e => [.error e]
  | .ok none => []
  | .ok (some text) => [.ok (.block text)]

/-- The texts nested in a shape, in the order of reading. -/
def nested : Shape → List (Except ScriptFault Nested)
  | .empty => []
  | .leaf _ => []
  | .conditional _ phrases _ body => phrases.map (.ok <| .statement ·) ++ nestedBody body
  | .each subject body => .ok (.statement subject) :: nestedBody body
  | .range low high body => .ok (.statement low) :: .ok (.statement high) :: nestedBody body
  | .method _ _ params trailing =>
    params.map (.ok <| .statement ·) ++ trailing.toList.map (.ok <| .statement ·)

end Shape

/-- The sources that a visit made ready, and whether it met no fault. -/
structure Visit where
  sources : List (List Char)
  clean : Bool

/-- Visit nested texts one after the other until one has a fault. -/
def Visit.inOrder (visit : Nested → Visit) : List (Except ScriptFault Nested) → Visit
  | [] => ⟨[], true⟩
  | .error _ :: _ => ⟨[], false⟩
  | .ok nested :: rest =>
    let first := visit nested
    if first.clean then
      let others := inOrder visit rest
      ⟨first.sources ++ others.sources, others.clean⟩
    else first

/-- Visit a nested text and all that nests in it, at most so many levels deep. -/
def Nested.visit : Nat → Nested → Visit
  | 0, _ => ⟨[], false⟩
  | depth + 1, .statement text =>
    match Shape.ofFragment text with
    | .error _ => ⟨[], false⟩
    | .ok shapes =>
      .inOrder (Nested.visit depth) <| shapes.flatMap fun
        | .ok shape => shape.nested
        | .error e => [.error e]
  | depth + 1, .block text =>
    match Source.prepare text with
    | .error _ => ⟨[], false⟩
    | .ok prepared =>
      let inside := Visit.inOrder (Nested.visit depth) (prepared.fragments.map (.ok <| .statement ·))
      ⟨prepared.hidden :: inside.sources, inside.clean⟩

/-- The sources that reading a block makes ready, with their spans hidden: the block itself and the
bodies in it, in order, up to the first fault. -/
def Block.sources (source : List Char) : List (List Char) :=
  (Nested.visit (2 * nestingLimit source) (.block source)).sources

end Cutscene
