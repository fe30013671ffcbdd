import Cutscene.Play.State
import Cutscene.Play.Value

/-!
Playing a block frame by frame. The statement under the cursor is evaluated, and its outcome says
where the cursor goes:

* done, or a condition that does not hold: to the next statement;
* a condition that holds and whose body is finished: past the arms that follow;
* pending: it stays, and the simultaneous statements right behind it are evaluated once alongside;
* a body that is not finished: it stays.

A frame goes on from statement to statement until one holds it up or the block is finished.

Correspondence (engine ↔ here):
  `Status`, `Status::blocks` ↔ `Status`, `Status.blocks`
  `StatementState::evaluate` ↔ `Play.evaluate`
  its arms                   ↔ `playSleep`, `playChain`, `playConditional`, `playEach`, `playRange`
  `BlockState::step`         ↔ `BlockState.step`; `Play.advance` moves the cursor
  its two loops              ↔ `Play.tickAlong`, `Play.pastArms`
  `BlockState::run`          ↔ `BlockState.run`; `Play.runSteps` is its loop
-/
namespace Cutscene

/-- The outcome of evaluating a statement for one frame. -/
inductive Status where
  /-- Not finished: to be evaluated again in the next frame. -/
  | pending
  | done
  /-- The condition holds and the body is finished. -/
  | met
  /-- The condition holds and the body is not finished. -/
  | metPending
  /-- The condition does not hold. -/
  | notMet
  deriving DecidableEq, Repr

/-- An outcome as the log writes it. -/
def Status.name : Status → String
  | .pending => "Pending"
  | .done => "Done"
  | .met => "ConditionMet"
  | .metPending => "ConditionMetButPending"
  | .notMet => "ConditionNotMet"

/-- Whether an outcome holds the frame up. -/
def Status.blocks : Status → Bool
  | .pending => true
  | .metPending => true
  | _ => false

namespace Play

variable {σ : Type}

/-- A statement made ready for playing: what the run has to know of it, and its evaluation, which
takes the value of `this` and the statement's progress. -/
structure Row (σ : Type) where
  simultaneous : Bool
  alternative : Bool
  evaluate : Option Value → StatementState → Play σ (Status × StatementState)

/-! ## Steps and frames over rows -/

/-- Evaluate the simultaneous rows at the start of a list once each. -/
def tickAlong (base : Option Value) :
    List (Row σ) → List StatementState → Play σ (List StatementState)
  | row :: rows, state :: states =>
    if row.simultaneous then do
      let (_, state) ← row.evaluate base state
      let states ← tickAlong base rows states
      return state :: states
    else pure (state :: states)
  | _, states => pure states

/-- The cursor behind a condition that was met: past the arms that follow it. -/
def pastArms (rows : List (Row σ)) (cursor : Nat) : Nat :=
  cursor + 1 + ((rows.drop (cursor + 1)).takeWhile Row.alternative).length

/-- The state of a block after the statement under the cursor had an outcome. -/
def advance (rows : List (Row σ)) (base : Option Value) (state : BlockState) :
    Status → Play σ BlockState
  | .pending => do
    let behind := state.cursor + 1
    let ahead ← tickAlong base (rows.drop behind) (state.statements.drop behind)
    return ⟨state.cursor, state.statements.take behind ++ ahead⟩
  | .metPending => pure state
  | .met => pure ⟨pastArms rows state.cursor, state.statements⟩
  | .done => pure ⟨state.cursor + 1, state.statements⟩
  | .notMet => pure ⟨state.cursor + 1, state.statements⟩

/-- Evaluate the statement under the cursor once and move the cursor. There is no outcome if the
block is finished. -/
def stepRows (rows : List (Row σ)) (base : Option Value) (state : BlockState) :
    Play σ (Option Status × BlockState) :=
  match rows[state.cursor]?, state.statements[state.cursor]? with
  | some row, some statement => do
    let (status, statement) ← row.evaluate base statement
    note .trace .evaluation ("statement " ++ toString state.cursor ++ ": " ++ status.name)
    let next ← advance rows base
      ⟨state.cursor, state.statements.set state.cursor statement⟩ status
    return (some status, next)
  | _, _ => pure (none, state)

/-- Make steps until one holds the frame up or the block is finished, at most so many, and say
whether it is finished. -/
def runSteps (rows : List (Row σ)) (base : Option Value) :
    Nat → BlockState → Play σ (Bool × BlockState)
  | 0, state => pure (true, state)
  | more + 1, state => do
    let (status, state) ← stepRows rows base state
    match status with
    | none => return (true, state)
    | some status => if status.blocks then return (false, state) else runSteps rows base more state

/-- Play a block for one frame, and say whether it is finished. Every step that does not hold the
frame up moves the cursor, and one more finds the end. -/
def runRows (rows : List (Row σ)) (base : Option Value) (state : BlockState) :
    Play σ (Bool × BlockState) :=
  runSteps rows base (rows.length + 1 - state.cursor) state

/-! ## Control statements -/

/-- The outcome of a body that was played because its condition holds. -/
def bodyStatus (finished : Bool) : Status := if finished then .met else .metPending

/-- Whether the condition of an arm holds: as it was fixed, or else by testing it now. -/
def fixGuard (host : Host σ) (params : List Statement) (template : String) (base : Option Value)
    (frame : Nat) : Option Bool → Play σ Bool
  | some met => pure met
  | none => do
    let met ← test host base frame params template
    note .debug .evaluation ("condition `" ++ template ++ "` -> " ++ toString met)
    return met

/-- Evaluate an arm of a conditional chain. Its condition is tested once, in the first frame. -/
def playConditional (host : Host σ) (params : List Statement) (template : String)
    (rows : List (Row σ)) (base : Option Value) (frame : Nat) (guard : Option Bool)
    (body : BlockState) : Play σ (Status × LinkState) := do
  let met ← fixGuard host params template base frame guard
  if met then
    let (finished, body) ← runRows rows base body
    return (bodyStatus finished, .conditional (some met) body)
  else return (.notMet, .conditional (some met) body)

/-- Play a body for every member, each with its own progress, and say whether all are finished. -/
def playMembers (rows : List (Row σ)) :
    List (Value × BlockState) → Play σ (Bool × List (Value × BlockState))
  | [] => pure (true, [])
  | (member, body) :: members => do
    let (finished, body) ← runRows rows (some member) body
    let (others, members) ← playMembers rows members
    return (finished && others, (member, body) :: members)

/-- The members of an `each`: as they were fixed, or else by listing them now, each with fresh
progress. -/
def fixMembers (host : Host σ) (subject : Statement) (fresh : BlockState) (base : Option Value)
    (frame : Nat) : Option (List (Value × BlockState)) → Play σ (List (Value × BlockState))
  | some members => pure members
  | none => do
    let found ← enumerate host base frame subject
    note .debug .evaluation ("each: " ++ toString found.length ++ " member(s)")
    return found.map fun member => (member, fresh)

/-- Evaluate an `each`. Its members are listed once, in the first frame. -/
def playEach (host : Host σ) (subject : Statement) (fresh : BlockState) (rows : List (Row σ))
    (base : Option Value) (frame : Nat) (members : Option (List (Value × BlockState))) :
    Play σ (Status × LinkState) := do
  let members ← fixMembers host subject fresh base frame members
  let (finished, members) ← playMembers rows members
  return (bodyStatus finished, .each (some members))

/-- Play the body of a range for at most so many values of its counter, starting it anew for each,
until it is held up. -/
def playCounts (rows : List (Row σ)) (base : Option Value) :
    Nat → Int64 → BlockState → Play σ (Bool × Int64 × BlockState)
  | 0, counter, body => pure (true, counter, body)
  | more + 1, counter, body => do
    let (finished, body) ← runRows rows base body
    if finished then playCounts rows base more (counter + 1) body.reset
    else return (false, counter, body)

/-- The bounds of a range and its counter: as they were fixed, or else by evaluating the bounds now
and starting at the lower one. -/
def fixBounds (host : Host σ) (low high : Statement) (base : Option Value) (frame : Nat)
    (counter : Int64) : Option (Int64 × Int64) → Play σ ((Int64 × Int64) × Int64)
  | some bounds => pure (bounds, counter)
  | none => do
    let low := ((← value host base frame low).map Value.toInteger).getD 0
    let high := ((← value host base frame high).map Value.toInteger).getD 0
    note .debug .evaluation
      ("range " ++ Number.integerText low ++ ".." ++ Number.integerText high)
    return ((low, high), low)

/-- Evaluate a range. Its bounds are fixed once, in the first frame. -/
def playRange (host : Host σ) (low high : Statement) (rows : List (Row σ)) (base : Option Value)
    (frame : Nat) (bounds : Option (Int64 × Int64)) (counter : Int64) (body : BlockState) :
    Play σ (Status × LinkState) := do
  let (bounds, counter) ← fixBounds host low high base frame counter bounds
  let (finished, counter, body) ←
    playCounts rows base (bounds.2.toInt - counter.toInt).toNat counter body
  return (bodyStatus finished, .range (some bounds) counter body)

/-! ## Plain statements -/

/-- The name of the call that waits for frames to pass. -/
def sleepName : String := "sleep"

/-- The outcome of waiting for as many frames as the first parameter says. The count is compared as a
signed integer, which it is as long as it fits into one. -/
def playSleep (host : Host σ) (params : List Statement) (base : Option Value) (frame : Nat) :
    Play σ Status := do
  let limit ← match params with
    | [] => pure none
    | param :: _ => value host base frame param
  if (limit.map Value.toInteger).getD 0 < Int64.ofNat frame then return .done else return .pending

/-- The outcome of a chain of calls. -/
def playChain (host : Host σ) (links : Statement) (base : Option Value) (frame : Nat) :
    Play σ Status := do
  return if (← chain host base frame links).isPending then .pending else .done

/-! ## Statements -/

mutual

/-- Evaluate a statement for one frame. -/
def evaluate (host : Host σ) :
    List Link → Option Value → StatementState → Play σ (Status × StatementState)
  | [], _, ⟨frames, link⟩ => pure (.done, ⟨frames + 1, link⟩)
  | .method name params simultaneous :: links, base, ⟨frames, link⟩ => do
    let status ←
      if name = sleepName then playSleep host params base (frames + 1)
      else playChain host (.method name params simultaneous :: links) base (frames + 1)
    return (status, ⟨frames + 1, link⟩)
  | .this :: links, base, ⟨frames, link⟩ => do
    let status ← playChain host (.this :: links) base (frames + 1)
    return (status, ⟨frames + 1, link⟩)
  | .conditional _ params template body :: _, base, ⟨frames, .conditional guard state⟩ => do
    let (status, link) ←
      playConditional host params template (rowsOf host body) base (frames + 1) guard state
    return (status, ⟨frames + 1, link⟩)
  | .each subject body :: _, base, ⟨frames, .each members⟩ => do
    let (status, link) ←
      playEach host subject (.fresh body) (rowsOf host body) base (frames + 1) members
    return (status, ⟨frames + 1, link⟩)
  | .range low high body :: _, base, ⟨frames, .range bounds counter state⟩ => do
    let (status, link) ←
      playRange host low high (rowsOf host body) base (frames + 1) bounds counter state
    return (status, ⟨frames + 1, link⟩)
  | _, _, ⟨frames, link⟩ => pure (.done, ⟨frames + 1, link⟩)

/-- The statements of a block made ready for playing. -/
def rowsOf (host : Host σ) : List (List Link) → List (Row σ)
  | [] => []
  | statement :: statements =>
    ⟨Statement.isSimultaneous statement, Statement.isAlternative statement,
      fun base state => evaluate host statement base state⟩ :: rowsOf host statements

end

end Play

namespace BlockState

variable {σ : Type}

/-- Evaluate the statement under the cursor once. -/
def step (host : Host σ) (block : Block) (base : Option Value) (state : BlockState) :
    Play σ (Option Status × BlockState) :=
  Play.stepRows (Play.rowsOf host block) base state

/-- Play a block for one frame, and say whether it is finished. -/
def run (host : Host σ) (block : Block) (base : Option Value) (state : BlockState) :
    Play σ (Bool × BlockState) :=
  Play.runRows (Play.rowsOf host block) base state

end BlockState

end Cutscene
