import Cutscene.Record
import Cutscene.Value

/-!
The host of a script and what passes between the two. A script reaches the game only by calls,
which the host answers, and by asking for the members of an object. `Play` is a computation that
talks to a host; it keeps the host's state and an account of every call, in the order in which
they were answered, together with the log records written on the way.

Correspondence (engine ↔ here):
  `Call`                                    ↔ `Call`
  `Call::param_str`, `Call::param_int`      ↔ `Call.paramText`, `Call.paramInteger`
  `QueryResult`, `into_value`, `is_pending` ↔ `Answer`, `Answer.toValue?`, `Answer.isPending`
  `QueryBridge`                             ↔ `Host`
  `QueryBridge::resolve`, `members`         ↔ `Play.ask`, `Play.list`
-/
namespace Cutscene

/-- A call of a method. The head of a chain has no target. -/
structure Call where
  target : Option Handle
  method : String
  params : List Value
  /-- For how many frames the calling statement has been evaluated, this one included. -/
  frame : Nat

namespace Call

/-- A parameter as text, empty if it is missing. -/
def paramText (call : Call) (index : Nat) : String := ((call.params[index]?).map Value.text).getD ""

/-- A parameter as an integer, zero if it is missing. -/
def paramInteger (call : Call) (index : Nat) : Int64 :=
  ((call.params[index]?).map Value.toInteger).getD 0

end Call

/-- What a host answers to a call. -/
inductive Answer where
  /-- An object, on which a chain may go on. -/
  | object (handle : Handle)
  | value (v : Value)
  /-- Not finished yet: ask again in the next frame. -/
  | pending
  /-- Nothing. -/
  | absent

namespace Answer

/-- The value of an answer, if it has one. -/
def toValue? : Answer → Option Value
  | .object h => some (.handle h)
  | .value v => some v
  | .pending => none
  | .absent => none

/-- Whether an answer asks to be asked again. -/
def isPending : Answer → Bool
  | .pending => true
  | _ => false

/-- What stands for `this`: an object to go on with, a value, or nothing. -/
def ofBase : Option Value → Answer
  | some (.handle h) => .object h
  | some v => .value v
  | none => .absent

end Answer

/-- A result of the host with the state it leaves and the records it wrote. -/
structure Reply (σ α : Type) where
  result : α
  state : σ
  records : List Record := []

/-- A host with states `σ`. -/
structure Host (σ : Type) where
  answer : Call → σ → Reply σ Answer
  members : Handle → σ → Reply σ (List Value)

/-- Something that happened while a script was played. -/
inductive Event where
  | called (call : Call) (answer : Answer)
  | listed (handle : Handle) (members : List Value)
  | noted (record : Record)

/-- A host's state and what has happened so far. -/
structure Stage (σ : Type) where
  host : σ
  events : Array Event := #[]

/-- A computation that talks to a host with states `σ`. -/
abbrev Play (σ : Type) := StateM (Stage σ)

namespace Play

variable {σ : Type}

/-- Write a record. -/
def note (level : Level) (topic : Topic) (text : String) : Play σ Unit :=
  modify fun stage => { stage with events := stage.events.push (.noted ⟨level, topic, text⟩) }

/-- A stage after a reply, with the event that the reply was. -/
def after {α : Type} (stage : Stage σ) (reply : Reply σ α) (event : Event) : Stage σ :=
  ⟨reply.state, (stage.events ++ reply.records.map Event.noted).push event⟩

/-- Send a call to the host. -/
def ask (host : Host σ) (call : Call) : Play σ Answer := fun stage =>
  let reply := host.answer call stage.host
  (reply.result, after stage reply (.called call reply.result))

/-- Ask the host for the members of an object. -/
def list (host : Host σ) (handle : Handle) : Play σ (List Value) := fun stage =>
  let reply := host.members handle stage.host
  (reply.result, after stage reply (.listed handle reply.result))

end Play

end Cutscene
