import Cutscene.Session

/-!
Rehearsing scripts without a game: besides the session, a host whose methods answer from prepared
lists. The first call of a method gets the first answer of its list, the second the second, and the
last answer repeats. The engine has no such host: a rehearsal stands for what a game registers.
-/
namespace Cutscene

/-- A prepared answer. -/
inductive Reaction where
  | pending
  | absent
  | object (handle : Handle)
  | value (v : Value)
  /-- All parameters as a list. -/
  | list
  /-- The parameter at an index, or the empty text. -/
  | echo (index : Nat)
  /-- Pending for as many frames as the first parameter says. -/
  | wait
  /-- The object that the call is made on. -/
  | itself
  /-- The name of the object that the call is made on. -/
  | id
  /-- An object of a kind, named by the first parameter. -/
  | make (kind : String)

/-- The answer that a reaction is to a call. -/
def Reaction.answer (call : Call) : Reaction → Answer
  | .pending => .pending
  | .absent => .absent
  | .object handle => .object handle
  | .value v => .value v
  | .list => .value (.list call.params)
  | .echo index => .value ((call.params[index]?).getD default)
  | .wait => if (call.frame : Int) < (call.paramInteger 0).toInt then .pending else .absent
  | .itself => (call.target.map Answer.object).getD .absent
  | .id => .value (.str ((call.target.map Handle.id).getD ""))
  | .make kind => .object ⟨kind, call.paramText 0⟩

/-- A method with its prepared answers. -/
structure Extra where
  kind : String
  method : String
  reactions : List Reaction

/-- A session, and how often each extra was called. -/
structure Rehearsal where
  session : Session := {}
  counts : List Nat := []

namespace Rehearsal

/-- Answer by the list of the extra at an index. -/
def perform (index : Nat) (reactions : List Reaction) : Handler Rehearsal := fun call rehearsal =>
  let count := rehearsal.counts.getD index 0
  let reaction := (reactions[min count (reactions.length - 1)]?).getD .absent
  { result := reaction.answer call
    state := { rehearsal with counts := rehearsal.counts.set index (count + 1) } }

/-- The session's methods inside a rehearsal. -/
def sessionRegistry : Registry Rehearsal :=
  Session.registry.within Rehearsal.session fun session rehearsal =>
    { rehearsal with session := session }

/-- A registry with extras, numbered from an index on. -/
def withExtras (registry : Registry Rehearsal) (index : Nat) : List Extra → Registry Rehearsal
  | [] => registry
  | extra :: extras =>
    withExtras (registry.on extra.kind extra.method (perform index extra.reactions)) (index + 1)
      extras

/-- The host of a rehearsal with extras and with objects whose members are given by kind. -/
def host (extras : List Extra) (members : List (String × List Value)) : Host Rehearsal :=
  let registry := withExtras sessionRegistry 0 extras
  (members.foldl (fun registry (kind, values) => registry.membersOf kind fun _ _ => values)
    registry).host

/-- A rehearsal before its first call. -/
def start (vars : List (String × String)) (extras : List Extra) : Rehearsal :=
  ⟨{ vars := Vars.empty.setAll vars }, extras.map fun _ => 0⟩

end Rehearsal

end Cutscene
