import Cutscene.Proofs.Source.Restored
import Cutscene.Statement.Visit

/-!
Comparing two readings of a text.

Reading a statement puts the readings of the texts in its shapes together (`Shape.Reads`). So a comparison
that goes through what is put together (`Comparison`) goes through shapes and through statements: where two
readers compare on the inner texts, they compare on the whole (`Comparison.fill`, `Comparison.shapes`). All
else is split in the same way for both of them, and splitting has no end of its own but a fault.
-/
namespace Cutscene

open Source Text

/-- A step that only splits gives what it gives, inside a reading as well. -/
theorem liftM_eq_ok_iff {α : Type} {step : Except ScriptFault α} {value : α} :
    (liftM step : Except ParseError α) = .ok value ↔ step = .ok value := by
  constructor
  · intro h
    cases step <;> cases h
    rfl
  · rintro rfl
    rfl

/-- A step that only splits does not overflow the stack. -/
theorem liftM_ne_tooDeep {α : Type} {step : Except ScriptFault α} :
    (liftM step : Except ParseError α) ≠ .error .tooDeep := by
  intro h
  cases step <;> cases h

/-- A reading that gives something goes on from what was split. -/
theorem liftM_bind_eq_ok {α β : Type} {step : Except ScriptFault α} {next : α → Except ParseError β}
    {result : β} (h : (liftM step >>= next) = .ok result) :
    ∃ value, step = .ok value ∧ next value = .ok result := by
  obtain ⟨value, hvalue, hrest⟩ := bind_eq_ok h
  exact ⟨value, liftM_eq_ok_iff.mp hvalue, hrest⟩

section Read
variable {read : List Char → Except ParseError Statement}

@[simp] theorem fillFound_ok (shape : Shape) : Shape.fillFound read (.ok shape) = shape.fill read := rfl

@[simp] theorem fillBody_some (text : List Char) :
    Shape.fillBody read (.ok (some text)) = Block.readWith read text := rfl

/-- A source is read fragment by fragment. -/
theorem readWith_eq {source : List Char} {pieces : List (List Char)} (h : fragments source = .ok pieces) :
    Block.readWith read source = pieces.mapM read := by
  rw [Block.readWith, h]
  rfl

/-- A source with one fragment is read to one statement, if that takes no more levels than the source has
characters. -/
theorem parse_single {source fragment : List Char} {statement : Statement} {levels : Nat}
    (hlevels : levels ≤ source.length) (hfragments : fragments source = .ok [fragment])
    (hread : ∀ depth, Statement.read (depth + levels) fragment = .ok statement) :
    Block.parse source = .ok [statement] := by
  have hlimit : source.length < nestingLimit source := by
    rw [nestingLimit, Nat.one_shiftLeft]
    exact Nat.lt_two_pow_self
  have hstatement : Statement.read (nestingLimit source) fragment = .ok statement := by
    rw [← hread (nestingLimit source - levels), Nat.sub_add_cancel (by omega)]
  rw [Block.parse, readWith_eq hfragments]
  simp only [List.mapM_cons, List.mapM_nil, hstatement]
  rfl

/-- A statement is read shape by shape, and what they are filled in to is put together. -/
theorem readWith_shapes {fragment : List Char} {shapes : List (Except ScriptFault Shape)}
    {chains : List Statement} (h : Shape.ofFragment fragment = .ok shapes)
    (hchains : shapes.mapM (Shape.fillFound read) = .ok chains) :
    Statement.readWith read fragment = .ok chains.flatten := by
  rw [Statement.readWith, h]
  exact congrArg (· >>= fun chains => pure chains.flatten) hchains

end Read

/-! ## Comparisons -/

/-- A way to compare readings that goes through what is put together from them. What is only split
compares with itself. -/
structure Comparison (alike : (α : Type) → Except ParseError α → Except ParseError α → Prop) : Prop where
  split {α : Type} (step : Except ScriptFault α) : alike α (liftM step) (liftM step)
  bind {α β : Type} {first second : Except ParseError α} {next next' : α → Except ParseError β}
    (h : alike α first second)
    (hnext : ∀ value, first = .ok value → alike β (next value) (next' value)) :
    alike β (first >>= next) (second >>= next')

/-- A text that is read when a shape is filled in: a statement that nests in it, or a fragment of its
body. -/
inductive Shape.Reads (shape : Shape) : List Char → Prop where
  | statement {text : List Char} (h : .ok (.statement text) ∈ shape.nested) : Reads shape text
  | fragment {body text : List Char} {pieces : List (List Char)}
      (h : .ok (.block body) ∈ shape.nested) (hpieces : fragments body = .ok pieces)
      (hmem : text ∈ pieces) : Reads shape text

namespace Comparison
variable {alike : (α : Type) → Except ParseError α → Except ParseError α → Prop} (c : Comparison alike)

include c

theorem pure {α : Type} (value : α) : alike α (pure value) (pure value) := c.split (.ok value)

theorem mapM {α β : Type} {read read' : α → Except ParseError β} {texts : List α}
    (h : ∀ text ∈ texts, alike β (read text) (read' text)) :
    alike (List β) (texts.mapM read) (texts.mapM read') := by
  induction texts with
  | nil => exact c.pure []
  | cons text texts ih =>
    obtain ⟨htext, htexts⟩ := List.forall_mem_cons.mp h
    rw [List.mapM_cons, List.mapM_cons]
    apply c.bind htext
    intro value _
    exact c.bind (ih htexts) fun values _ => c.pure _

section Readers
variable {read read' : List Char → Except ParseError Statement}

theorem readWith {source : List Char} (h : ∀ pieces, fragments source = .ok pieces →
    ∀ piece ∈ pieces, alike Statement (read piece) (read' piece)) :
    alike Block (Block.readWith read source) (Block.readWith read' source) :=
  c.bind (c.split (fragments source)) fun pieces hpieces =>
    c.mapM (h pieces (liftM_eq_ok_iff.mp hpieces))

variable {shape : Shape} (h : ∀ text, shape.Reads text → alike Statement (read text) (read' text))

include h

theorem fillBody {body : Except ScriptFault (Option (List Char))}
    (hbody : Shape.nestedBody body ⊆ shape.nested) :
    alike Block (Shape.fillBody read body) (Shape.fillBody read' body) := by
  apply c.bind (c.split body)
  intro text hfound
  obtain rfl := liftM_eq_ok_iff.mp hfound
  cases text with
  | none => exact c.pure []
  | some text =>
    exact c.readWith fun pieces hpieces piece hmem =>
      h piece (.fragment (hbody (by simp [Shape.nestedBody])) hpieces hmem)

/-- **Two readers compare on a shape if they do on the texts in it**, one case for each kind of link. -/
theorem fill : alike Statement (shape.fill read) (shape.fill read') := by
  cases shape with
  | empty => exact c.pure []
  | leaf link => exact c.pure [link]
  | conditional arm phrases template body =>
    have hphrases : ∀ text ∈ phrases, alike Statement (read text) (read' text) :=
      fun text hmem => h text (.statement (by simp [Shape.nested, hmem]))
    apply c.bind (c.mapM hphrases)
    intro params _
    exact c.bind (c.fillBody h (by simp [Shape.nested])) fun block _ => c.pure _
  | each subject body =>
    apply c.bind (h subject (.statement (by simp [Shape.nested])))
    intro subject _
    exact c.bind (c.fillBody h (by simp [Shape.nested])) fun block _ => c.pure _
  | range low high body =>
    apply c.bind (h low (.statement (by simp [Shape.nested])))
    intro low _
    apply c.bind (h high (.statement (by simp [Shape.nested])))
    intro high _
    exact c.bind (c.fillBody h (by simp [Shape.nested])) fun block _ => c.pure _
  | method name simultaneous params trailing =>
    have hparams : ∀ text ∈ params, alike Statement (read text) (read' text) :=
      fun text hmem => h text (.statement (by simp [Shape.nested, hmem]))
    apply c.bind (c.mapM hparams)
    intro params _
    cases trailing with
    | none => exact c.pure _
    | some text =>
      exact c.bind (h text (.statement (by simp [Shape.nested]))) fun links _ => c.pure _

omit h in
/-- **Two readers compare on a statement if they do on the texts in its shapes.** -/
theorem shapes {fragment : List Char} (h : ∀ shapes, Shape.ofFragment fragment = .ok shapes →
    ∀ shape, .ok shape ∈ shapes → ∀ text, shape.Reads text → alike Statement (read text) (read' text)) :
    alike Statement (Statement.readWith read fragment) (Statement.readWith read' fragment) := by
  apply c.bind (c.split (Shape.ofFragment fragment))
  intro shapes hshapes
  refine c.bind (c.mapM fun result hmem => ?_) fun chains _ => c.pure _
  apply c.bind (c.split result)
  intro shape hshape
  obtain rfl := liftM_eq_ok_iff.mp hshape
  exact c.fill (h shapes (liftM_eq_ok_iff.mp hshapes) shape hmem)

end Readers

end Comparison

end Cutscene
