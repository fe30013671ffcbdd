/-!
One pass of replacement over a text, from left to right. At each position an edit may take some
characters and write others in their place; what was written is not looked at again, and the pass
goes on behind what was taken. Replacing a fixed text and putting placeholders back are both such
passes.

Correspondence (engine ↔ here):
  `str::replace`                          ↔ `replaceAll`
  `AhoCorasick::replace_all` in `restore` ↔ `pass` of `Placeholders.restoring`
  `Regex::replace_all` of `else_brace`    ↔ `pass` of `Source.conditioningElse`
-/
namespace Cutscene.Text

/-- What an edit does where it applies: the text it writes, and how many characters it takes. -/
structure Edit where
  written : List Char
  taken : Nat

/-- One pass of an edit over a text whose first `skip` characters have been taken already. An edit
takes at least the character it was found at. -/
def passFrom (edit : List Char → Option Edit) : Nat → List Char → List Char
  | _, [] => []
  | skip + 1, _ :: rest => passFrom edit skip rest
  | 0, c :: rest =>
    match edit (c :: rest) with
    | some e => e.written ++ passFrom edit (e.taken - 1) rest
    | none => c :: passFrom edit 0 rest

/-- What was taken already is passed over. -/
theorem passFrom_drop (edit : List Char → Option Edit) (skip : Nat) (text : List Char) :
    passFrom edit skip text = passFrom edit 0 (text.drop skip) := by
  induction text generalizing skip with
  | nil => cases skip <;> rfl
  | cons c rest ih =>
    cases skip with
    | zero => rfl
    | succ skip => simpa only [passFrom, List.drop_succ_cons] using ih skip

/-- One pass of an edit over a text, leftmost places first, none of them overlapping. -/
def pass (edit : List Char → Option Edit) (text : List Char) : List Char := passFrom edit 0 text

/-- The edit that writes `new` wherever `old` stands. An empty `old` stands nowhere. -/
def replacing (old new : List Char) (text : List Char) : Option Edit :=
  if !old.isEmpty && old.isPrefixOf text then some ⟨new, old.length⟩ else none

theorem replacing_none {old new text : List Char} (h : ¬ old <+: text) :
    replacing old new text = none := by
  have hno : old.isPrefixOf text = false := by
    rw [Bool.eq_false_iff]
    exact fun hp => h (List.isPrefixOf_iff_prefix.mp hp)
  simp [replacing, hno]

/-- A text with `new` in the place of every `old`. -/
def replaceAll (old new : List Char) (text : List Char) : List Char :=
  pass (replacing old new) text

theorem replaceAll_cons {old : List Char} (new : List Char) {c : Char} {rest : List Char}
    (h : ¬ old <+: c :: rest) : replaceAll old new (c :: rest) = c :: replaceAll old new rest := by
  rw [replaceAll, pass, passFrom, replacing_none h]
  rfl

theorem replaceAll_append {old : List Char} (hold : old ≠ []) (new rest : List Char) :
    replaceAll old new (old ++ rest) = new ++ replaceAll old new rest := by
  obtain ⟨c, more, rfl⟩ := List.exists_cons_of_ne_nil hold
  have hedit : replacing (c :: more) new (c :: (more ++ rest)) = some ⟨new, more.length + 1⟩ := by
    have hprefix : (c :: more).isPrefixOf (c :: (more ++ rest)) = true :=
      List.isPrefixOf_iff_prefix.mpr (List.prefix_append _ _)
    simp [replacing, hprefix]
  have hdrop : (more ++ rest).drop more.length = rest := by simp
  rw [replaceAll, pass, List.cons_append, passFrom, hedit]
  simp only [Nat.add_sub_cancel, passFrom_drop _ more.length, hdrop]
  rfl

end Cutscene.Text
