import Cutscene.Source.Alias
import Cutscene.Source.Comment
import Cutscene.Source.Layout
import Cutscene.Text.Placeholder

/-!
From the source of a script to the fragments that hold one statement each. Comments and alias
definitions go first. String literals are hidden while aliases are expanded and the layout is
normalised; argument lists and then blocks are hidden while the text is split at semicolons. A
block ends its statement, so a semicolon is written behind each. Last, everything hidden is put
back, in the opposite order.

Correspondence (engine ↔ here):
  `preprocess`, up to `else_brace` ↔ `layOut`
  `preprocess`, the text it traces ↔ `Prepared.hidden`
  `preprocess`                     ↔ `prepare`, `fragments`
-/
namespace Cutscene.Source

open Text

/-- A source made ready for reading: its text with all spans hidden, and its fragments. -/
structure Prepared where
  hidden : List Char
  fragments : List (List Char)
  deriving DecidableEq, Repr

/-- A source on one line, with its literals hidden in the given table. -/
structure Laid where
  text : List Char
  literals : Placeholders

/-- Take comments and definitions out of a source, expand its aliases outside literals and
normalise its layout. -/
def layOut (source : List Char) : Except ScriptFault Laid := do
  let text := stripComments source
  let aliases := Alias.collect text
  let (text, strings) ← hide .string {} (Alias.strip text) (.tagged "string")
  let (text, strings) ← hide .string {} (Alias.substitute aliases text) strings
  let (text, strings) := hideQuoted text strings
  return ⟨conditionElse (normalise text), strings⟩

/-- Split a text whose literals are hidden into fragments, and put its literals back. -/
def split (laid : Laid) : Except ScriptFault Prepared := do
  let (text, params) ← hide .parenthesis {} laid.text (.tagged "params")
  let (text, blocks) ← hide .brace { suffix := [';'] } text (.tagged "subscript")
  let restored := (splitOn ';' text).map fun part =>
    trim (laid.literals.restore (params.restore (blocks.restore part)))
  return ⟨text, restored.filter fun fragment => !fragment.isEmpty⟩

/-- Make a source ready for reading. -/
def prepare (source : List Char) : Except ScriptFault Prepared := do split (← layOut source)

/-- The fragments of a source, none of them blank. -/
def fragments (source : List Char) : Except ScriptFault (List (List Char)) := do
  return (← prepare source).fragments

end Cutscene.Source
