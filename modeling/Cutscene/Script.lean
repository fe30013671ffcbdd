import Cutscene.Play.Run
import Cutscene.Statement.Reader

/-!
A script: a block and how far one run of it has come. The host plays it a frame at a time.

Correspondence (engine ↔ here):
  `Script::parse`, `new`                 ↔ `Script.parse`, `fresh`
  `Script::cursor`, `len`, `is_finished` ↔ `Script.cursor`, `size`, `isFinished`
  `Script::reset`, `step`, `run`         ↔ `Script.reset`, `step`, `run`
-/
namespace Cutscene

/-- A run of a block. -/
structure Script where
  block : Block
  state : BlockState

namespace Script

variable {σ : Type}

/-- A run of a block before its first frame. -/
def fresh (block : Block) : Script := ⟨block, .fresh block⟩

/-- A run of the block that a source holds. -/
def parse (source : List Char) : Except ParseError Script := do return .fresh (← Block.parse source)

/-- The index of the statement that the next frame goes on with. -/
def cursor (script : Script) : Nat := script.state.cursor

/-- The number of statements. -/
def size (script : Script) : Nat := script.block.length

/-- Whether the cursor is past the last statement. -/
def isFinished (script : Script) : Bool := script.size ≤ script.cursor

/-- Go back to the first statement and forget all progress. -/
def reset (script : Script) : Script := ⟨script.block, script.state.reset⟩

/-- Evaluate the statement under the cursor once. -/
def step (host : Host σ) (base : Option Value) (script : Script) :
    Play σ (Option Status × Script) := do
  let (status, state) ← script.state.step host script.block base
  return (status, ⟨script.block, state⟩)

/-- Play one frame, and say whether the script is finished. -/
def run (host : Host σ) (base : Option Value) (script : Script) : Play σ (Bool × Script) := do
  let (finished, state) ← script.state.run host script.block base
  return (finished, ⟨script.block, state⟩)

end Script

end Cutscene
