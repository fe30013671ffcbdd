import Cutscene.Proofs.Statement.Idempotence

/-!
How reading comes to an end.

Reading a text passes other texts on, to be read in their turn: a block its fragments, and a statement the
texts that nest in it (`Passes`). Below a plain source without slashes everything that is passed on stands
in the text that it comes from. A statement keeps a parenthesis at least of what it passes on
(`nested_shorter`), and the fragments of a body stand in the body, since it is laid out already
(`Tidy.fragment_isInfix`). So a weight goes down with each text that is passed on (`Tidy.weight_lt`), and
reading ends (`reading_descends`). The source itself is not laid out, so its fragments may be longer.
-/
namespace Cutscene

open Source Text

/-- A text that is passed on when a text is read, unless a fault ends the reading before. -/
inductive Passes : Nested → Nested → Prop where
  | fragment {block fragment : List Char} {pieces : List (List Char)}
      (hpieces : fragments block = .ok pieces) (hmem : fragment ∈ pieces) :
      Passes (.block block) (.statement fragment)
  | nested {text : List Char} {shapes : List (Except ScriptFault Shape)} {shape : Shape} {inner : Nested}
      (hshapes : Shape.ofFragment text = .ok shapes) (hshape : .ok shape ∈ shapes)
      (hinner : .ok inner ∈ shape.nested) : Passes (.statement text) inner

theorem Comes.passes {source : List Char} {outer inner : Nested} (h : Comes source outer)
    (hpasses : Passes outer inner) : Comes source inner := by
  cases hpasses with
  | fragment hpieces hmem => exact h.fragment hpieces hmem
  | nested hshapes hshape hinner => exact h.nested hshapes hshape hinner

/-! ## What is passed on is no longer -/

/-- What nests in a statement stands in it, and is shorter. -/
theorem nested_shorter {text : List Char} (h : IsPlain text) {inner : Nested}
    (hpasses : Passes (.statement text) inner) :
    inner.text <:+: text ∧ inner.text.length < text.length := by
  cases hpasses with
  | nested hshapes hshape hinner =>
    obtain ⟨behind, hbehind, hstands⟩ := Shape.inside_of_nested h.1 h.2.1 hshapes hshape hinner
    have hgroup : '(' :: behind <:+: text := hbehind.isInfix
    have hinside : inner.text <:+: behind := hstands.standsWhole.isInfix
    have hlength := hgroup.length_le
    have hshorter := hinside.length_le
    rw [List.length_cons] at hlength
    exact ⟨hinside.trans ((List.suffix_cons _ _).isInfix.trans hgroup), by omega⟩

namespace Source.Tidy

/-- **A fragment of a tidy text stands in the text.** -/
theorem fragment_isInfix {text : List Char} (h : Tidy text) {pieces : List (List Char)}
    (hpieces : fragments text = .ok pieces) {fragment : List Char} (hmem : fragment ∈ pieces) :
    fragment <:+: text := by
  have hlaid : laidText text = Text.trim text := by
    rw [laidText, h.stripComments_eq, h.trim.layout_eq, fillIn_skeleton h.trim.closed]
  have hwithin := Source.fragment_isInfix h.plain hpieces hmem
  rw [hlaid] at hwithin
  exact hwithin.trans (isInfix_trim text)

end Source.Tidy

/-! ## The descent -/

/-- How far reading can go down from a text. A block weighs more than a statement of its length, since it
may pass it on. -/
def Nested.weight : Nested → Nat
  | .statement text => 2 * text.length
  | .block text => 2 * text.length + 1

theorem Nested.weight_le (inner : Nested) : inner.weight ≤ 2 * inner.text.length + 1 := by
  cases inner with
  | statement text => exact Nat.le_succ _
  | block text => exact Nat.le_refl _

namespace Source.Tidy

variable {outer inner : Nested} (h : Tidy outer.text) (hpasses : Passes outer inner)

include h hpasses

theorem passes : Tidy inner.text := by
  cases hpasses with
  | fragment hpieces hmem => exact tidy_fragment h.plain hpieces hmem h.slash
  | nested hshapes hshape hinner => exact tidy_nested h hshapes hshape hinner

theorem weight_lt : inner.weight < outer.weight := by
  cases hpasses with
  | fragment hpieces hmem =>
    have hlength := (h.fragment_isInfix hpieces hmem).length_le
    simp only [Nested.weight, Nested.text] at hlength ⊢
    omega
  | @nested text _ _ _ hshapes hshape hinner =>
    have htext : Tidy text := h
    obtain ⟨-, hshorter⟩ := nested_shorter htext.plain (.nested hshapes hshape hinner)
    calc inner.weight
      _ ≤ 2 * inner.text.length + 1 := inner.weight_le
      _ < 2 * text.length := by omega

omit hpasses in
/-- Nothing is passed on for ever from a tidy text. -/
theorem acc : Acc (fun inner outer => Passes outer inner) outer := by
  induction hn : outer.weight using Nat.strong_induction_on generalizing outer with
  | _ n ih =>
    constructor
    intro inner hpasses
    exact ih inner.weight (hn ▸ h.weight_lt hpasses) (h.passes hpasses) rfl

end Source.Tidy

/-- Reading a source goes down at every step, and comes to an end. -/
structure Descends (source : List Char) : Prop where
  /-- Whatever a statement passes on stands in it and is shorter. -/
  shorter {text : List Char} {inner : Nested} (hcomes : Comes source (.statement text))
    (hpasses : Passes (.statement text) inner) : inner.text <:+: text ∧ inner.text.length < text.length
  /-- No fragment of a body that is passed on is longer than the body. -/
  body {text body fragment : List Char} (hcomes : Comes source (.statement text))
    (hbody : Passes (.statement text) (.block body))
    (hfragment : Passes (.block body) (.statement fragment)) :
    fragment <:+: body ∧ fragment.length ≤ body.length
  /-- There is no endless row of texts of which each is passed on by the one before. -/
  ends : Acc (fun inner outer => Passes outer inner) (.block source)
  /-- Reading is not stopped for its depth, and with more levels it ends in the same way. -/
  levels {depth : Nat} (hdepth : nestingLimit source ≤ depth) :
    EndAlike (Block.parse source) (Block.readWith (Statement.read depth) source)

/-- Statements below a plain source without slashes are tidy. -/
theorem Comes.statement_tidy {source text : List Char} (h : IsPlain source) (hslash : '/' ∉ source)
    (hcomes : Comes source (.statement text)) : Tidy text :=
  (hcomes.tidy h hslash).resolve_left (by simp)

/-- **Reading a plain source without slashes goes down, and comes to an end**, though preparing an arm can
make it longer than the source. -/
theorem reading_descends {source : List Char} (h : IsPlain source) (hslash : '/' ∉ source) :
    Descends source where
  shorter hcomes hpasses := nested_shorter (hcomes.statement_tidy h hslash).plain hpasses
  body {text body _} hcomes hbody hfragment := by
    have htext : Tidy (Nested.statement text).text := hcomes.statement_tidy h hslash
    have htidy : Tidy body := htext.passes hbody
    cases hfragment with
    | fragment hpieces hmem =>
      have hinside := htidy.fragment_isInfix hpieces hmem
      exact ⟨hinside, hinside.length_le⟩
  ends := by
    constructor
    intro inner hpasses
    have hcomes : Comes source inner := Comes.source.passes hpasses
    cases hpasses with
    | fragment => exact Tidy.acc (hcomes.statement_tidy h hslash)
  levels hdepth := parse_ends h hdepth

/-- An arm with a brace in a literal, and an `else` without a condition set close to a block. -/
def tightArm : List Char := "if(x(\"\x7d\"))\x7b\x7b\x7delse\x7bb(c(1))\x7d\x7d".toList

/-- The arm, prepared, which makes it longer. -/
def preparedTightArm : List Char := "if(x(\"\x7d\"))\x7b\x7b\x7d else(1) \x7bb(c(1))\x7d\x7d".toList

/-- The body of the arm. -/
def tightBody : List Char := "\x7b\x7d else(1) \x7bb(c(1))\x7d".toList

/-- The arm in that body. -/
def innerArm : List Char := "else(1) \x7bb(c(1))\x7d".toList

theorem reading_descends_tightArm :
    IsPlain tightArm ∧ '/' ∉ tightArm ∧ Descends tightArm ∧
      Passes (.block tightArm) (.statement preparedTightArm) ∧
      tightArm.length < preparedTightArm.length ∧
      Passes (.statement preparedTightArm) (.block tightBody) ∧
      Passes (.block tightBody) (.statement innerArm) ∧ innerArm.length ≤ tightBody.length := by
  have hplain : IsPlain tightArm := by decide +kernel
  have hslash : '/' ∉ tightArm := by decide +kernel
  have hfragments : fragments tightArm = .ok [preparedTightArm] := by decide +kernel
  have hshapes : Shape.ofFragment preparedTightArm =
      .ok [.ok (.conditional .ifArm ["x(\"\x7d\")".toList] "@^statement1$@" (.ok (some tightBody)))] := by
    cbv
  have hinner : fragments tightBody = .ok [['\x7b', '\x7d'], innerArm] := by decide +kernel
  have harm : Passes (.block tightArm) (.statement preparedTightArm) :=
    .fragment hfragments List.mem_cons_self
  have hbody : Passes (.statement preparedTightArm) (.block tightBody) :=
    .nested hshapes List.mem_cons_self (List.mem_append_right _ List.mem_cons_self)
  have hfragment : Passes (.block tightBody) (.statement innerArm) :=
    .fragment hinner (List.mem_cons_of_mem _ List.mem_cons_self)
  have hdescends : Descends tightArm := reading_descends hplain hslash
  have hshort := (hdescends.body (Comes.source.passes harm) hbody hfragment).2
  exact ⟨hplain, hslash, hdescends, harm, by decide +kernel, hbody, hfragment, hshort⟩

end Cutscene
