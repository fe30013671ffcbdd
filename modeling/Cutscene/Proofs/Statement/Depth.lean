import Cutscene.Proofs.Statement.Pieces
import Cutscene.Proofs.Statement.Sequence

/-!
How deep statements nest.

A text that nests in a statement stands behind a parenthesis of it, so it has fewer parentheses. A body
stands behind a brace as well, and although arms without a condition are given parentheses when the body
is prepared, each of these goes with a brace. So what is read inside a plain statement has a smaller load
(`reads_load`), the load of a text is below its nesting limit (`load_lt_nestingLimit`), and a plain
statement that was read with any number of levels is read to the same within the limit
(`parse_of_read`). No reading of a plain source is stopped at the limit, whether it gives a block or a
fault (`parse_ends`).
-/
namespace Cutscene

open Source Text

/-- How much can still nest in a text. -/
def load (text : List Char) : Nat := text.count '(' + (text.count '\x7b').choose 2

theorem choose_two_succ (n : Nat) : (n + 1).choose 2 = n + n.choose 2 := by
  rw [Nat.choose_succ_succ' n 1, Nat.choose_one_right]

theorem add_choose_lt_two_pow (groups braces : Nat) :
    groups + (braces + 1).choose 2 < 2 ^ (groups + braces) := by
  have hpairs : (braces + 1).choose 2 < 2 ^ braces := by
    induction braces with
    | zero => decide
    | succ braces ih =>
      have hlt := Nat.lt_two_pow_self (n := braces)
      rw [choose_two_succ, Nat.pow_succ]
      omega
  induction groups with
  | zero => simpa using hpairs
  | succ groups ih =>
    rw [Nat.add_right_comm, Nat.add_right_comm groups 1 braces, Nat.pow_succ]
    omega

theorem count_brackets_le (text : List Char) :
    text.count '(' + text.count '\x7b' ≤ text.length := by
  induction text with
  | nil => exact Nat.le_refl 0
  | cons c text ih =>
    simp only [List.count_cons, List.length_cons]
    by_cases hc : c = '('
    · subst hc
      simp only [beq_self_eq_true, if_true, show (('(' : Char) == '\x7b') = false from rfl,
        Bool.false_eq_true, if_false]
      omega
    · have hne : (c == '(') = false := by simpa using hc
      simp only [hne, Bool.false_eq_true, if_false]
      split <;> omega

/-- One brace more than a text has would still be within its limit. -/
theorem add_choose_lt_nestingLimit (text : List Char) :
    text.count '(' + (text.count '\x7b' + 1).choose 2 < nestingLimit text :=
  calc text.count '(' + (text.count '\x7b' + 1).choose 2
    _ < 2 ^ (text.count '(' + text.count '\x7b') := add_choose_lt_two_pow _ _
    _ ≤ 2 ^ text.length := Nat.pow_le_pow_right (by decide) (count_brackets_le text)
    _ = nestingLimit text := by rw [nestingLimit, Nat.one_shiftLeft]

theorem load_lt_nestingLimit (text : List Char) : load text < nestingLimit text := by
  have hpairs := Nat.choose_le_choose 2 (Nat.le_add_right (text.count '\x7b') 1)
  have hlimit := add_choose_lt_nestingLimit text
  unfold load
  omega

/-- The load of a fragment is below the limit of its source, though it may have parentheses that the
source has not. -/
theorem load_fragment_lt {source : List Char} (h : IsPlain source) {pieces : List (List Char)}
    (hpieces : fragments source = .ok pieces) {piece : List Char} (hmem : piece ∈ pieces) :
    load piece < nestingLimit source := by
  obtain ⟨hbraces, hgroups⟩ := fragment_bounded h hpieces hmem
  have hpairs := Nat.choose_le_choose 2 hbraces
  have hlimit := add_choose_lt_nestingLimit source
  rw [choose_two_succ] at hlimit
  unfold load
  omega

theorem isPlain_of_subset {text inner : List Char} (h : IsPlain text) (hsub : inner ⊆ text) :
    IsPlain inner :=
  ⟨fun hmem => h.1 (hsub hmem), fun hmem => h.2.1 (hsub hmem), fun hmem => h.2.2 (hsub hmem)⟩

section Reads
variable {text : List Char} (h : IsPlain text) {shapes : List (Except ScriptFault Shape)}
  (hshapes : Shape.ofFragment text = .ok shapes) {shape : Shape} (hshape : .ok shape ∈ shapes)

include h hshapes hshape

theorem isPlain_nested {inner : Nested} (hinner : .ok inner ∈ shape.nested) : IsPlain inner.text := by
  obtain ⟨behind, hbehind, hstands⟩ := Shape.inside_of_nested h.1 h.2.1 hshapes hshape hinner
  have hsub : behind ⊆ text := fun c hc => hbehind.isInfix.subset (List.mem_cons_of_mem _ hc)
  exact isPlain_of_subset h fun c hc => hsub (hstands.standsWhole.isInfix.subset hc)

/-- **What is read inside a plain statement is plain, and has a smaller load.** -/
theorem reads_load {inner : List Char} (hreads : shape.Reads inner) :
    IsPlain inner ∧ load inner < load text := by
  cases hreads with
  | statement hinner =>
    refine ⟨isPlain_nested h hshapes hshape hinner, ?_⟩
    obtain ⟨behind, hbehind, hstands⟩ := Shape.inside_of_nested h.1 h.2.1 hshapes hshape hinner
    have hgroups := hbehind.isInfix.sublist.count_le '('
    have hbraces := hbehind.isInfix.sublist.count_le '\x7b'
    have hin : inner.Sublist behind := hstands.isInfix.sublist
    have hinGroups := hin.count_le '('
    have hinBraces := hin.count_le '\x7b'
    rw [List.count_cons_self] at hgroups
    rw [List.count_cons_of_ne (by decide)] at hbraces
    have hpairs := Nat.choose_le_choose 2 (hinBraces.trans hbraces)
    unfold load
    omega
  | @fragment body _ pieces hinner hpieces hmem =>
    have hplain : IsPlain body := isPlain_nested h hshapes hshape hinner
    refine ⟨isPlain_fragment hplain hpieces hmem, ?_⟩
    obtain ⟨behind, hbehind, hstands⟩ := Shape.inside_of_nested h.1 h.2.1 hshapes hshape hinner
    obtain ⟨hfragmentBraces, hfragmentGroups⟩ := fragment_bounded hplain hpieces hmem
    have hgroups := hbehind.isInfix.sublist.count_le '('
    have hbraces := hbehind.isInfix.sublist.count_le '\x7b'
    have hin : ('\x7b' :: body).Sublist behind := hstands.isInfix.sublist
    have hinGroups := hin.count_le '('
    have hinBraces := hin.count_le '\x7b'
    rw [List.count_cons_self] at hgroups hinBraces
    rw [List.count_cons_of_ne (by decide)] at hbraces hinGroups
    -- the brace of the body pays for the parentheses that arms are given in it
    have hpairs := Nat.choose_le_choose 2 (hinBraces.trans hbraces)
    have hfragmentPairs := Nat.choose_le_choose 2 hfragmentBraces
    rw [choose_two_succ] at hpairs
    unfold load
    omega

end Reads

/-- **A plain statement is read to the same with any number of levels above its load.** -/
theorem read_above_load {depth deeper : Nat} {text : List Char} (h : IsPlain text)
    (hload : load text < deeper) : Follows (Statement.read depth text) (Statement.read deeper text) := by
  induction depth generalizing deeper text with
  | zero =>
    intro statement hread
    cases hread
  | succ depth ih =>
    obtain ⟨below, rfl⟩ : ∃ below, deeper = below + 1 := ⟨deeper - 1, by omega⟩
    apply Follows.comparison.shapes
    intro shapes hshapes shape hshape inner hreads
    obtain ⟨hplain, hless⟩ := reads_load h hshapes hshape hreads
    exact ih hplain (by omega)

/-- **A plain statement that was read is read within the limit of its text.** -/
theorem parse_of_read {depth : Nat} {text : List Char} (h : IsPlain text) {statement : Statement}
    (hread : Statement.read depth text = .ok statement) : Statement.parse text = .ok statement :=
  read_above_load h (load_lt_nestingLimit text) statement hread

/-! ## Reading comes to an end -/

/-- Two readings that come to an end, and to the same one: neither of them was stopped for its depth. -/
def EndAlike {α : Type} (first second : Except ParseError α) : Prop :=
  first = second ∧ first ≠ .error .tooDeep

theorem EndAlike.comparison : Comparison fun _ => EndAlike where
  split _ := ⟨rfl, liftM_ne_tooDeep⟩
  bind h hnext := by
    obtain ⟨rfl, hfirst⟩ := h
    rename_i first _ _
    cases first with
    | error e => exact ⟨rfl, fun heq => hfirst (congrArg Except.error (Except.error.inj heq))⟩
    | ok value => exact hnext value rfl

/-- **Reading a plain statement ends, with any number of levels above its load.** -/
theorem read_ends {depth deeper : Nat} {text : List Char} (h : IsPlain text) (hload : load text < depth)
    (hdeeper : load text < deeper) : EndAlike (Statement.read depth text) (Statement.read deeper text) := by
  induction depth generalizing deeper text with
  | zero => exact absurd hload (Nat.not_lt_zero _)
  | succ depth ih =>
    obtain ⟨below, rfl⟩ : ∃ below, deeper = below + 1 := ⟨deeper - 1, by omega⟩
    apply EndAlike.comparison.shapes
    intro shapes hshapes shape hshape inner hreads
    obtain ⟨hplain, hless⟩ := reads_load h hshapes hshape hreads
    exact ih hplain (by omega) (by omega)

/-- **Reading a plain source ends**, and more levels than its limit do not change what it ends with. -/
theorem parse_ends {source : List Char} (h : IsPlain source) {depth : Nat}
    (hdepth : nestingLimit source ≤ depth) :
    EndAlike (Block.parse source) (Block.readWith (Statement.read depth) source) := by
  apply EndAlike.comparison.readWith
  intro pieces hpieces piece hmem
  have hload := load_fragment_lt h hpieces hmem
  exact read_ends (isPlain_fragment h hpieces hmem) hload (by omega)

end Cutscene
