import Cutscene.Session
import Cutscene.Proofs.Play.Talk

/-!
What a session writes while it is played.

Of all the methods of a session only `debug` writes a line, and none of them looks at the lines that
wait to be taken (`Writes`): whatever waits stays in front, and what is answered is the same. So a
computation that talks to a session writes the lines of the calls of `debug` that it makes, in the order
in which it makes them, and it makes no difference to it how often the lines before were taken
(`talks_writes`).

One method draws: `setRandomly` picks by the next of the numbers that the session has to draw. It picks
from its parameters (`pick_mem`), and whatever is to be picked there are numbers for it (`exists_chance`),
so a statement about every sequence of numbers is one about every way in which the picks can fall.
-/
namespace Cutscene

/-- The line that a call has a session write: the parameters of `debug`. -/
def Call.line? (call : Call) : Option String :=
  if (Registry.kindOf call, call.method) = (rootKind, "debug") then
    some (String.intercalate " " (call.params.map Value.text))
  else none

/-- The line that an event had a session write. -/
def Event.line? : Event → Option String
  | .called call _ => call.line?
  | _ => none

/-- The lines of an account, in its order. -/
def linesOf (events : List Event) : List String := events.filterMap Event.line?

theorem linesOf_append (a b : List Event) : linesOf (a ++ b) = linesOf a ++ linesOf b :=
  List.filterMap_append

/-- Records are no lines. -/
theorem linesOf_noted (records : List Record) (event : Event) :
    linesOf (records.map Event.noted ++ [event]) = event.line?.toList := by
  have hrecords : linesOf (records.map Event.noted) = [] := by
    simp [linesOf, List.filterMap_map, Function.comp_def, Event.line?]
  rw [linesOf_append, hrecords, List.nil_append]
  cases h : event.line? <;> simp [linesOf, h]

namespace Session

/-- A reply writes these lines behind those that wait, which make no difference to it. -/
def Writes {γ : Type} (reply : Session → Reply Session γ) (lines : List String) : Prop :=
  ∀ vars chance, ∃ result vars' chance' records, ∀ output,
    reply ⟨vars, output, chance⟩ = ⟨result, ⟨vars', output ++ lines, chance'⟩, records⟩

/-- Nothing is written by what leaves the lines that wait as they are. -/
theorem writes_nothing {γ : Type} {reply : Session → Reply Session γ}
    (h : ∀ vars chance, ∃ result vars' chance' records, ∀ output,
      reply ⟨vars, output, chance⟩ = ⟨result, ⟨vars', output, chance'⟩, records⟩) : Writes reply [] := by
  intro vars chance
  obtain ⟨result, vars', chance', records, hreply⟩ := h vars chance
  refine ⟨result, vars', chance', records, ?_⟩
  intro output
  rw [hreply, List.append_nil]

/-! ## Draws -/

/-- What is picked is one of the texts to pick from. -/
theorem pick_mem {texts : List String} (h : texts ≠ []) (chance : Nat → Nat) :
    (pick texts chance).1 ∈ texts := by
  have hempty : texts.isEmpty = false := by simpa using h
  have hlt : chance 0 % texts.length < texts.length :=
    Nat.mod_lt _ (List.length_pos_iff.mpr h)
  simp [pick, hempty, List.getElem?_eq_getElem hlt]

/-- A number below how many texts there are picks the text that it counts to. -/
theorem pick_eq {texts : List String} {chance : Nat → Nat} (h : chance 0 < texts.length) :
    pick texts chance = (texts[chance 0], fun index => chance (index + 1)) := by
  have hempty : texts.isEmpty = false := by
    simpa using List.ne_nil_of_length_pos (Nat.zero_lt_of_lt h)
  simp [pick, hempty, Nat.mod_eq_of_lt h, List.getElem?_eq_getElem h]

/-- The texts that are picked from several lists, one after the other. -/
def picks : List (List String) → (Nat → Nat) → List String
  | [], _ => []
  | texts :: more, chance => (pick texts chance).1 :: picks more (pick texts chance).2

/-- **Any picks can be drawn.** Whichever of its texts is wanted from each list, there are numbers by which
just these are picked. -/
theorem exists_chance {choices : List (List String × String)}
    (h : ∀ choice ∈ choices, choice.2 ∈ choice.1) :
    ∃ chance, picks (choices.map Prod.fst) chance = choices.map Prod.snd := by
  induction choices with
  | nil => exact ⟨fun _ => 0, rfl⟩
  | cons choice choices ih =>
    obtain ⟨hchoice, hothers⟩ := List.forall_mem_cons.mp h
    obtain ⟨chance, hpicks⟩ := ih hothers
    obtain ⟨index, hlt, htext⟩ := List.mem_iff_getElem.mp hchoice
    -- the number of the wanted text comes before the numbers for the other lists
    let first : Nat → Nat := fun drawn => if drawn = 0 then index else chance (drawn - 1)
    have hfirst : pick choice.1 first = (choice.2, chance) := by
      rw [pick_eq (show first 0 < choice.1.length from hlt)]
      exact Prod.ext htext rfl
    refine ⟨first, ?_⟩
    rw [List.map_cons, List.map_cons, picks, hfirst, hpicks]

/-! ## Methods -/

section Methods
variable (call : Call)

theorem writes_debug :
    Writes (debug call) [String.intercalate " " (call.params.map Value.text)] :=
  fun _ _ => ⟨_, _, _, _, fun _ => rfl⟩

theorem writes_select : Writes (select call) [] := by
  apply writes_nothing
  intro vars chance
  unfold select
  cases call.params <;> exact ⟨_, _, _, _, fun _ => rfl⟩

theorem writes_selectGroup : Writes (selectGroup call) [] :=
  writes_nothing fun _ _ => ⟨_, _, _, _, fun _ => rfl⟩

theorem writes_frame : Writes (frame call) [] := writes_nothing fun _ _ => ⟨_, _, _, _, fun _ => rfl⟩

theorem writes_get : Writes (get call) [] := by
  apply writes_nothing
  intro vars chance
  unfold get
  cases call.target <;> dsimp only <;> exact ⟨_, _, _, _, fun _ => rfl⟩

theorem writes_update (change : Call → Vars → String → Vars) : Writes (update change call) [] := by
  apply writes_nothing
  intro vars chance
  unfold update
  cases call.target <;> dsimp only <;> exact ⟨_, _, _, _, fun _ => rfl⟩

theorem writes_compare (wanted : Bool) : Writes (compare wanted call) [] := by
  apply writes_nothing
  intro vars chance
  unfold compare
  cases call.target with
  | none => exact ⟨_, _, _, _, fun _ => rfl⟩
  | some target =>
    let same : Bool := vars.get target.id = call.paramText 0
    exact ⟨.value (.ofBool (same == wanted)), vars, chance, [], fun _ => rfl⟩

theorem writes_setRandomly : Writes (setRandomly call) [] := by
  apply writes_nothing
  intro vars chance
  unfold setRandomly update
  cases call.target <;> dsimp only <;> exact ⟨_, _, _, _, fun _ => rfl⟩

/-- Every other method than `debug` writes nothing. -/
theorem writes_other {key : String × String} {handler : Handler Session}
    (hmem : (key, handler) ∈ registry.methods) (hother : key ≠ (rootKind, "debug")) :
    Writes (handler call) [] := by
  simp only [registry, Registry.root, Registry.on, Registry.membersOf, List.mem_cons, Prod.mk.injEq,
    List.not_mem_nil, or_false] at hmem
  rcases hmem with ⟨-, rfl⟩ | ⟨-, rfl⟩ | ⟨-, rfl⟩ | ⟨-, rfl⟩ | ⟨-, rfl⟩ | ⟨-, rfl⟩ | ⟨-, rfl⟩ |
    ⟨-, rfl⟩ | ⟨rfl, -⟩ | ⟨-, rfl⟩ | ⟨-, rfl⟩
  · exact writes_compare call false
  · exact writes_compare call true
  · exact writes_setRandomly call
  · exact writes_update call _
  · exact writes_update call _
  · exact writes_update call _
  · exact writes_get call
  · exact writes_frame call
  · exact absurd rfl hother
  · exact writes_selectGroup call
  · exact writes_select call

theorem lookup_debug : registry.methods.lookup (rootKind, "debug") = some debug := by rfl

/-- **An answer writes the line of its call**, if it has one. -/
theorem writes_answer : Writes (registry.host.answer call) call.line?.toList := by
  change Writes (registry.answer call) _
  unfold Registry.answer
  by_cases hdebug : (Registry.kindOf call, call.method) = (rootKind, "debug")
  · rw [Call.line?, if_pos hdebug, hdebug, lookup_debug]
    exact writes_debug call
  · rw [Call.line?, if_neg hdebug]
    cases hlookup : registry.methods.lookup (Registry.kindOf call, call.method) with
    | none => exact writes_nothing fun _ _ => ⟨_, _, _, _, fun _ => rfl⟩
    | some handler =>
      obtain ⟨before, after, hmethods, -⟩ := List.lookup_eq_some_iff.mp hlookup
      exact writes_other call (by simp [hmethods]) hdebug

end Methods

theorem writes_members (handle : Handle) : Writes (registry.host.members handle) [] := by
  apply writes_nothing
  intro vars chance
  change ∃ result vars' chance' records, ∀ output,
    registry.members handle ⟨vars, output, chance⟩ = _
  unfold Registry.members
  cases hlookup : registry.enumerators.lookup handle.kind with
  | none => exact ⟨_, _, _, _, fun _ => rfl⟩
  | some enumerator =>
    -- there is one enumerator, and it reads the variables only
    obtain ⟨before, after, henumerators, -⟩ := List.lookup_eq_some_iff.mp hlookup
    have hmem : (handle.kind, enumerator) ∈ registry.enumerators := by simp [henumerators]
    simp only [registry, Registry.root, Registry.on, Registry.membersOf, List.mem_singleton,
      Prod.mk.injEq] at hmem
    obtain ⟨-, rfl⟩ := hmem
    exact ⟨variablesIn handle ⟨vars, [], chance⟩, vars, chance, [], fun _ => rfl⟩

/-- Asking and listing, as computations: a reply is written down behind its records. -/
theorem after_writes {γ : Type} {reply : Session → Reply Session γ} {lines : List String}
    (h : Writes reply lines) (event : γ → Event) (hline : ∀ result, (event result).line?.toList = lines)
    (vars : Vars) (chance : Nat → Nat) :
    ∃ result vars' chance' new, ∀ output (events : Array Event),
      let replied := reply ⟨vars, output, chance⟩
      (replied.result, Play.after ⟨⟨vars, output, chance⟩, events⟩ replied (event replied.result)) =
      (result, (⟨⟨vars', output ++ linesOf new, chance'⟩, events ++ new⟩ : Stage Session)) := by
  obtain ⟨result, vars', chance', records, hreply⟩ := h vars chance
  refine ⟨result, vars', chance', records.map Event.noted ++ [event result], ?_⟩
  intro output events
  have hevents : (events ++ records.map Event.noted).push (event result) =
      events ++ (records.map Event.noted ++ [event result]) := by
    apply Array.toList_inj.mp
    simp
  simp only [hreply, linesOf_noted, hline, Play.after, hevents]

/-! ## Playing -/

/-- **A computation writes the lines of what it asks**, in that order, and what waits makes no difference
to it, whatever is drawn on the way. -/
theorem talks_writes {α : Type} {allowed : Call → Prop} {x : Play Session α}
    (h : Play.Talks registry.host allowed x) (vars : Vars) (chance : Nat → Nat) :
    ∃ result vars' chance' new, ∀ output (events : Array Event), x.run ⟨⟨vars, output, chance⟩, events⟩ =
      (result, ⟨⟨vars', output ++ linesOf new, chance'⟩, events ++ new⟩) := by
  induction h generalizing vars chance with
  | pure a =>
    refine ⟨a, vars, chance, [], ?_⟩
    intro output events
    have hlines : linesOf [] = [] := rfl
    rw [hlines, List.append_nil, Array.appendList_nil]
    rfl
  | bind _ _ hx hf =>
    obtain ⟨a, mid, drawn, first, hfirst⟩ := hx vars chance
    obtain ⟨b, last, left, second, hsecond⟩ := hf a mid drawn
    refine ⟨b, last, left, first ++ second, ?_⟩
    intro output events
    have hevents : events ++ (first ++ second) = events ++ first ++ second := by
      apply Array.toList_inj.mp
      simp
    rw [Play.run_bind, hfirst, hsecond, linesOf_append, hevents, List.append_assoc]
  | ask _ =>
    exact after_writes (writes_answer _) (fun answer => .called _ answer) (fun _ => rfl) vars chance
  | list handle =>
    exact after_writes (writes_members handle) (fun members => .listed handle members)
      (fun _ => rfl) vars chance
  | note level topic text =>
    refine ⟨(), vars, chance, [.noted ⟨level, topic, text⟩], ?_⟩
    intro output events
    have hline : linesOf [.noted ⟨level, topic, text⟩] = [] := rfl
    rw [hline, List.append_nil]
    simp [Play.note, modify, modifyGet, MonadStateOf.modifyGet, StateT.modifyGet, StateT.run,
      Pure.pure]

end Session

end Cutscene
