import Cutscene.Script

/-!
Scripts that are played one after the other. Only the head of the queue is played; when it is
finished it leaves, and the next one may start in the same frame.

Correspondence (engine ↔ here):
  `ScriptQueue::load`                      ↔ `Queue.load`
  `ScriptQueue::process`                   ↔ `Queue.process`
  `ScriptQueue::run_until_blocked`         ↔ `Queue.runUntilBlocked`
  `ScriptQueue::current`, `is_idle`, `len` ↔ `Queue.current`, `isIdle`, `size`
-/
namespace Cutscene

/-- Scripts waiting to be played, the one in play first. -/
structure Queue where
  scripts : List Script := []

namespace Queue

variable {σ : Type}

/-- Put a script at the end, to be played from its start. -/
def load (queue : Queue) (script : Script) : Queue := ⟨queue.scripts ++ [script.reset]⟩

/-- The script in play. -/
def current (queue : Queue) : Option Script := queue.scripts.head?

/-- The number of scripts. -/
def size (queue : Queue) : Nat := queue.scripts.length

/-- Whether there is nothing to play. -/
def isIdle (queue : Queue) : Bool := queue.scripts.isEmpty

/-- Record that a script left a queue with so many others. -/
def noteFinished (others : Nat) : Play σ Unit :=
  Play.note .debug .queue ("script finished, " ++ toString others ++ " queued")

/-- Play the head for one frame, and say whether it finished and left. -/
def process (host : Host σ) (base : Option Value) : Queue → Play σ (Bool × Queue)
  | ⟨[]⟩ => pure (false, ⟨[]⟩)
  | ⟨head :: others⟩ => do
    let (finished, head) ← head.run host base
    if finished then
      noteFinished others.length
      return (true, ⟨others⟩)
    else return (false, ⟨head :: others⟩)

/-- Play scripts for one frame until one does not finish, and count those that did. -/
def runScripts (host : Host σ) (base : Option Value) : List Script → Play σ (Nat × List Script)
  | [] => pure (0, [])
  | head :: others => do
    let (finished, head) ← head.run host base
    if finished then
      noteFinished others.length
      let (count, others) ← runScripts host base others
      return (count + 1, others)
    else return (0, head :: others)

/-- Play the queue for one frame: keep going while scripts finish, and count them. -/
def runUntilBlocked (host : Host σ) (base : Option Value) (queue : Queue) :
    Play σ (Nat × Queue) := do
  let (count, scripts) ← runScripts host base queue.scripts
  return (count, ⟨scripts⟩)

end Queue

end Cutscene
