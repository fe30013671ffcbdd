import Cutscene.Statement.Tree
import Cutscene.Value

/-!
How far a run of a block has come. The state follows the block: each statement counts the frames it
was evaluated for, and a control statement remembers what it fixed at its first evaluation and the
state of its body. `fresh` is the state before the first frame, and `reset` goes back to it.

Correspondence (engine ↔ here):
  `BlockState`, `StatementState`, `LinkState`  ↔ the same
  `BlockState::new`, `StatementState::new`     ↔ `BlockState.fresh`, `StatementState.fresh`
  `BlockState::reset`, `StatementState::reset` ↔ `BlockState.reset`, `StatementState.reset`
-/
namespace Cutscene

mutual

/-- Progress through a block: the index of the statement to go on with, and every statement's own
progress. -/
structure BlockState where
  cursor : Nat
  statements : List StatementState

/-- Progress of a statement: the frames it was evaluated for, and what its first link remembers. -/
structure StatementState where
  frames : Nat
  link : LinkState

/-- What the first link of a statement remembers. -/
inductive LinkState where
  | plain
  /-- Whether the condition held, once it was tested, and the body's progress. -/
  | conditional (guard : Option Bool) (body : BlockState)
  /-- The members, once they were listed, each with its own progress through the body. -/
  | each (members : Option (List (Value × BlockState)))
  /-- The bounds, once they were fixed, the counter, and the progress through the body. -/
  | range (bounds : Option (Int64 × Int64)) (counter : Int64) (body : BlockState)

end

mutual

/-- The state of a statement before its first frame. -/
def StatementState.fresh : List Link → StatementState
  | .conditional _ _ _ body :: _ => ⟨0, .conditional none ⟨0, freshStates body⟩⟩
  | .each _ _ :: _ => ⟨0, .each none⟩
  | .range _ _ body :: _ => ⟨0, .range none 0 ⟨0, freshStates body⟩⟩
  | _ => ⟨0, .plain⟩

/-- The states of statements before their first frame. -/
def freshStates : List (List Link) → List StatementState
  | [] => []
  | statement :: statements => .fresh statement :: freshStates statements

end

/-- The state of a block before its first frame. -/
def BlockState.fresh (block : Block) : BlockState := ⟨0, freshStates block⟩

mutual

/-- Go back to the first statement and forget all progress. -/
def BlockState.reset : BlockState → BlockState
  | ⟨_, statements⟩ => ⟨0, resetStates statements⟩

/-- Forget the progress of a statement. -/
def StatementState.reset : StatementState → StatementState
  | ⟨_, link⟩ => ⟨0, link.reset⟩

/-- Forget what a link remembers. -/
def LinkState.reset : LinkState → LinkState
  | .plain => .plain
  | .conditional _ body => .conditional none body.reset
  | .each _ => .each none
  | .range _ _ body => .range none 0 body.reset

/-- Forget the progress of statements. -/
def resetStates : List StatementState → List StatementState
  | [] => []
  | state :: states => state.reset :: resetStates states

end

end Cutscene
