import Cutscene.Host

/-!
A registry is a host put together from methods. A method is registered for a kind of object, and
the methods that begin a chain for the kind `root`. A method registered later takes the place of an
earlier one; a call of one that was never registered is answered with nothing.

Correspondence (engine ↔ here):
  `ROOT`                               ↔ `rootKind`
  `Handler`, `Enumerator`              ↔ `Handler`, `Enumerator`
  `Registry::on`, `root`, `members_of` ↔ `Registry.on`, `root`, `membersOf`
  `Registry::resolve`, `members`       ↔ `Registry.answer`, `members`
-/
namespace Cutscene

/-- The kind that the methods without a target belong to. -/
def rootKind : String := "root"

/-- What a method does with a call. -/
abbrev Handler (ω : Type) := Call → ω → Reply ω Answer

/-- How the members of an object are found. -/
abbrev Enumerator (ω : Type) := Handle → ω → List Value

/-- Methods and enumerators over a world `ω`, the latest first. -/
structure Registry (ω : Type) where
  methods : List ((String × String) × Handler ω) := []
  enumerators : List (String × Enumerator ω) := []

namespace Registry

variable {ω υ : Type}

/-- Register a method for a kind of object. -/
def on (registry : Registry ω) (kind method : String) (handler : Handler ω) : Registry ω :=
  { registry with methods := ((kind, method), handler) :: registry.methods }

/-- Register a method that begins a chain. -/
def root (registry : Registry ω) (method : String) (handler : Handler ω) : Registry ω :=
  registry.on rootKind method handler

/-- Register how the members of a kind of object are found. -/
def membersOf (registry : Registry ω) (kind : String) (enumerator : Enumerator ω) : Registry ω :=
  { registry with enumerators := (kind, enumerator) :: registry.enumerators }

/-- The kind of object that a call is made on. -/
def kindOf (call : Call) : String := (call.target.map Handle.kind).getD rootKind

/-- Answer a call by the method that is registered for it. -/
def answer (registry : Registry ω) (call : Call) (world : ω) : Reply ω Answer :=
  match registry.methods.lookup (kindOf call, call.method) with
  | some handler => handler call world
  | none =>
    ⟨.absent, world,
      [⟨.debug, .registry, "no method `" ++ call.method ++ "` on `" ++ kindOf call ++ "`"⟩]⟩

/-- List the members of an object. -/
def members (registry : Registry ω) (handle : Handle) (world : ω) : Reply ω (List Value) :=
  match registry.enumerators.lookup handle.kind with
  | some enumerator => ⟨enumerator handle world, world, []⟩
  | none =>
    ⟨[], world, [⟨.debug, .registry, "`" ++ handle.kind ++ "` objects cannot be enumerated"⟩]⟩

/-- The host that a registry is. -/
def host (registry : Registry ω) : Host ω := ⟨registry.answer, registry.members⟩

/-- A registry over a world that is a part of a larger one. -/
def within (get : υ → ω) (put : ω → υ → υ) (registry : Registry ω) : Registry υ where
  methods := registry.methods.map fun (key, handler) =>
    (key, fun call world =>
      let reply := handler call (get world)
      ⟨reply.result, put reply.state world, reply.records⟩)
  enumerators := registry.enumerators.map fun (kind, enumerator) =>
    (kind, fun handle world => enumerator handle (get world))

end Registry

end Cutscene
