import Cutscene.Source.Fragment
import Cutscene.Statement.Shape

/-!
Reading statements and blocks. A statement is read by filling in its shape: the texts nested in it
are read in the order in which they stand, and the first fault ends the reading. Statements nest in
one another, so reading goes down by levels. It need not come to an end: a text with something like a
placeholder in it can nest in itself, and reading it goes down until the stack overflows.

Correspondence (engine ↔ here):
  `parse_statement` ↔ `Statement.parse`; `Statement.readWith` is one call of it
  `parse_link`      ↔ `Shape.fillFound`
  `parse_body`      ↔ `Shape.fillBody`
  `parse_block`     ↔ `Block.parse`, `Block.readWith`
-/
namespace Cutscene

/-- Read the statements of a source with a reader for one of them. -/
def Block.readWith (read : List Char → Except ParseError Statement) (source : List Char) :
    Except ParseError Block := do
  (← Source.fragments source).mapM read

namespace Shape

/-- Read a body. A missing one is empty. -/
def fillBody (read : List Char → Except ParseError Statement)
    (body : Except ScriptFault (Option (List Char))) : Except ParseError Block := do
  match ← body with
  | none => return []
  | some text => Block.readWith read text

/-- The links that a shape stands for, with a reader for the statements nested in it. -/
def fill (read : List Char → Except ParseError Statement) : Shape → Except ParseError Statement
  | .empty => .ok []
  | .leaf link => .ok [link]
  | .conditional arm phrases template body => do
    let params ← phrases.mapM read
    let body ← fillBody read body
    return [.conditional arm params template body]
  | .each subject body => do
    let subject ← read subject
    let body ← fillBody read body
    return [.each subject body]
  | .range low high body => do
    let low ← read low
    let high ← read high
    let body ← fillBody read body
    return [.range low high body]
  | .method name simultaneous params trailing => do
    let params ← params.mapM read
    let links ← match trailing with
      | none => pure []
      | some text => read text
    return .method name params simultaneous :: links

/-- The links of a piece, which has a shape or a fault. -/
def fillFound (read : List Char → Except ParseError Statement) (found : Except ScriptFault Shape) :
    Except ParseError Statement := do (← found).fill read

end Shape

/-- Read a statement with a reader for the statements nested in it. -/
def Statement.readWith (read : List Char → Except ParseError Statement) (fragment : List Char) :
    Except ParseError Statement := do
  let chains ← (← Shape.ofFragment fragment).mapM (Shape.fillFound read)
  return chains.flatten

/-- Read a statement on a stack with room for so many levels of statements in one another. -/
def Statement.read : Nat → List Char → Except ParseError Statement
  | 0, _ => .error .tooDeep
  | depth + 1, fragment => Statement.readWith (Statement.read depth) fragment

/-- The levels that there is room for when a text is read, a number that grows with the text as no
stack does. A text without aliases and placeholders of its own never comes near it, because what nests
in such a text is shorter than it. -/
def nestingLimit (text : List Char) : Nat := 1 <<< text.length

/-- Read a statement from a text that holds a single one. -/
def Statement.parse (fragment : List Char) : Except ParseError Statement :=
  Statement.read (nestingLimit fragment) fragment

/-- Read the block that a source holds. -/
def Block.parse (source : List Char) : Except ParseError Block :=
  Block.readWith (Statement.read (nestingLimit source)) source

end Cutscene
