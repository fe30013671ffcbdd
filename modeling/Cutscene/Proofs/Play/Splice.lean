import Mathlib
import Cutscene.Play.Value
import Cutscene.Proofs.Text.Glyph

/-!
Putting the values of calls into a condition, one marker after the other.

The markers of a template are replaced in turn, and each time the whole text is searched, with the
values that were put in before. The result is the template with every marker replaced at once as
long as no value can become a part of a later marker (`Harmless`), and no weaker condition on a
single value will do: for every other text there are a template and harmless values beside it where
a marker that came with the text is replaced as well (`test_at_once`).

A template is made of pieces, code and markers; those that conditions are cut into are
(`template_pieces`). A marker has one caret, so where it stands in a text that is put together from
pieces is settled by the piece with the caret (`replaceAll_blocks`).
-/
namespace Cutscene.Play

open Text Condition

/-! ## Markers -/

/-- A marker behind its first two characters. -/
def markerBody (n : Nat) : List Char :=
  ['s', 't', 'a', 't', 'e', 'm', 'e', 'n', 't'] ++ Nat.toDigits 10 n ++ ['$', '@']

theorem marker_eq (n : Nat) : marker n = '@' :: '^' :: markerBody n := rfl

theorem marker_ne_nil (n : Nat) : marker n ≠ [] := by
  rw [marker_eq]
  exact List.cons_ne_nil _ _

theorem caret_notMem_markerBody (n : Nat) : '^' ∉ markerBody n := by
  intro h
  simp only [markerBody, List.mem_append] at h
  rcases h with (h | h) | h
  · exact absurd h (by decide)
  · exact absurd (isDigit_of_mem_digits h) (by decide)
  · exact absurd h (by decide)

theorem markerBody_known {j k : Nat} {a b : List Char} (h : markerBody j ++ a = markerBody k ++ b) :
    j = k := by
  simp only [markerBody, List.append_assoc, List.append_cancel_left_eq] at h
  obtain ⟨hdigits, -⟩ := append_cons_inj (dollar_notMem_digits j) (dollar_notMem_digits k) h
  calc j = Nat.ofDigitChars 10 (Nat.toDigits 10 j) 0 := Nat.ofDigitChars_ten_toDigits.symm
    _ = Nat.ofDigitChars 10 (Nat.toDigits 10 k) 0 := by rw [hdigits]
    _ = k := Nat.ofDigitChars_ten_toDigits

/-! ## Texts that a marker cannot come from -/

/-- A text is inert for a marker if no text around it that has no caret completes the marker. -/
def Inert (j : Nat) (text : List Char) : Prop :=
  ∀ front back, '^' ∉ front → '^' ∉ back → ¬ marker j <:+: front ++ text ++ back

/-- A text in the place of marker `i` is harmless if it is inert for the markers that are replaced
after it, up to number `n`. -/
def Harmless (n i : Nat) (text : List Char) : Prop := ∀ j, i < j → j ≤ n → Inert j text

theorem inert_of_caret {text : List Char} (h : '^' ∉ text) (j : Nat) : Inert j text := by
  intro front back hfront hback hmarker
  have hmem : '^' ∈ front ++ text ++ back := hmarker.subset (by simp [marker_eq])
  simp only [List.mem_append] at hmem
  rcases hmem with (hmem | hmem) | hmem
  · exact hfront hmem
  · exact h hmem
  · exact hback hmem

theorem harmless_of_caret {text : List Char} (h : '^' ∉ text) (n i : Nat) : Harmless n i text :=
  fun j _ _ => inert_of_caret h j

/-- A marker is inert for the others: there is one caret only, so they would begin together. -/
theorem inert_marker {j k : Nat} (h : k ≠ j) : Inert j (marker k) := by
  intro front back hfront hback hmarker
  obtain ⟨before, behind, heq⟩ := hmarker
  have hbody := caret_notMem_markerBody
  have hbefore : '^' ∉ before := by
    have hcount := congrArg (List.count '^') heq
    simp only [marker_eq, List.count_append, List.count_cons, List.count_eq_zero_of_not_mem hfront,
      List.count_eq_zero_of_not_mem hback, List.count_eq_zero_of_not_mem (hbody _)] at hcount
    rw [← List.count_eq_zero]
    simp at hcount
    omega
  have hcut : before ++ ['@'] ++ '^' :: (markerBody j ++ behind) =
      front ++ ['@'] ++ '^' :: (markerBody k ++ back) := by
    simpa [marker_eq] using heq
  obtain ⟨-, hbehind⟩ := append_cons_inj (by simp [hbefore]) (by simp [hfront]) hcut
  exact h (markerBody_known hbehind).symm

/-! ## One replacement -/

/-- Inert texts and the places of a marker between them. -/
abbrev Blocks := List (Option (List Char))

/-- Blocks with a text in the places of the marker. -/
def joined (text : List Char) (blocks : Blocks) : List Char := blocks.flatMap (·.getD text)

section Replacement
variable {j : Nat} {blocks : Blocks}

/-- No marker begins in an inert text or right before it, two characters or more before its end. -/
theorem Inert.not_prefix {text : List Char} (h : Inert j text) {front part : List Char}
    (hfront : '^' ∉ front) (hpart : part <:+ front ++ text) (hlength : 2 ≤ part.length)
    (rest : List Char) : ¬ marker j <+: part ++ rest := by
  intro hp
  rcases List.prefix_or_prefix_of_prefix hp (List.prefix_append part rest) with hinside | hover
  · have hinfix : marker j <:+: front ++ text ++ [] := by
      rw [List.append_nil]
      exact hinside.isInfix.trans hpart.isInfix
    exact h front [] hfront (by simp) hinfix
  · -- the marker reaches beyond the text, with characters behind its caret
    obtain ⟨back, hback⟩ := hover
    have hcaret : '^' ∉ back := by
      obtain ⟨c, d, more, rfl⟩ : ∃ c d more, part = c :: d :: more := by
        match part, hlength with
        | c :: d :: more, _ => exact ⟨c, d, more, rfl⟩
      rw [marker_eq] at hback
      simp only [List.cons_append, List.cons.injEq] at hback
      intro hmem
      have hbody : '^' ∈ markerBody j := by
        rw [← hback.2.2]
        exact List.mem_append_right more hmem
      exact caret_notMem_markerBody j hbody
    obtain ⟨before, hbefore⟩ := hpart
    refine h front back hfront hcaret ?_
    rw [← hback, ← hbefore]
    exact ⟨before, [], by simp⟩

/-- No marker begins with a character before blocks. -/
theorem not_prefix_cons (h : ∀ text, some text ∈ blocks → Inert j text) (c : Char) :
    ¬ marker j <+: c :: joined (marker j) blocks := by
  induction blocks with
  | nil =>
    intro hp
    have hlength := hp.length_le
    simp [marker_eq, joined] at hlength
  | cons block blocks ih =>
    intro hp
    have hfirst : c = '@' := by
      rw [marker_eq] at hp
      exact (List.cons_prefix_cons.mp hp).1.symm
    cases block with
    | none =>
      simp only [joined, List.flatMap_cons, Option.getD_none, marker_eq, List.cons_append,
        List.cons_prefix_cons] at hp
      exact absurd hp.2.1 (by decide)
    | some text =>
      cases text with
      | nil =>
        apply ih fun text hmem => h text (List.mem_cons_of_mem _ hmem)
        simpa [joined] using hp
      | cons d text =>
        have hinert := h (d :: text) (by simp)
        have hpart : c :: d :: text <:+ [c] ++ d :: text := List.suffix_rfl
        refine hinert.not_prefix ?_ hpart (by simp) (joined (marker j) blocks) ?_
        · simp [hfirst]
        · simpa [joined] using hp

/-- No replacement begins in an inert text. -/
theorem replaceAll_inert {text : List Char} (hinert : Inert j text)
    (h : ∀ text, some text ∈ blocks → Inert j text) (new : List Char) {part : List Char}
    (hpart : part <:+ text) :
    replaceAll (marker j) new (part ++ joined (marker j) blocks) =
      part ++ replaceAll (marker j) new (joined (marker j) blocks) := by
  induction part with
  | nil => rfl
  | cons c part ih =>
    have hno : ¬ marker j <+: c :: (part ++ joined (marker j) blocks) := by
      cases part with
      | nil => exact not_prefix_cons h c
      | cons d part =>
        have hpart : c :: d :: part <:+ [] ++ text := hpart
        exact hinert.not_prefix (by simp) hpart (by simp) _
    rw [List.cons_append, replaceAll_cons new hno, ih ((List.suffix_cons c part).trans hpart)]
    rfl

/-- **One replacement.** Between inert texts a marker stands in its own places and nowhere else. -/
theorem replaceAll_blocks (h : ∀ text, some text ∈ blocks → Inert j text) (new : List Char) :
    replaceAll (marker j) new (joined (marker j) blocks) = joined new blocks := by
  induction blocks with
  | nil => rfl
  | cons block blocks ih =>
    have hblocks : ∀ text, some text ∈ blocks → Inert j text :=
      fun text hmem => h text (List.mem_cons_of_mem _ hmem)
    have hrest := ih hblocks
    cases block with
    | none =>
      show replaceAll (marker j) new (marker j ++ joined (marker j) blocks) =
        new ++ joined new blocks
      rw [replaceAll_append (marker_ne_nil j), hrest]
    | some text =>
      show replaceAll (marker j) new (text ++ joined (marker j) blocks) = text ++ joined new blocks
      rw [replaceAll_inert (h text (by simp)) hblocks new List.suffix_rfl, hrest]

end Replacement

/-! ## All replacements -/

/-- A piece of a template: code, or the marker of a call. -/
inductive Piece where
  | code (text : List Char)
  | mark (k : Nat)

/-- Whether a piece fits into a template for `n` calls: code cannot become a part of a marker, and a
marker is that of a call. -/
def Piece.Fits (n : Nat) : Piece → Prop
  | .code text => Harmless n 0 text
  | .mark k => 1 ≤ k ∧ k ≤ n

/-- The template of pieces. -/
def templateOf (pieces : List Piece) : List Char :=
  pieces.flatMap fun
    | .code text => text
    | .mark k => marker k

/-- The text in the place of the marker with a number. -/
def textAt (texts : List (List Char)) (k : Nat) : List Char := texts.getD (k - 1) []

/-- Pieces with all markers replaced at once. -/
def fill (texts : List (List Char)) (pieces : List Piece) : List Char :=
  pieces.flatMap fun
    | .code text => text
    | .mark k => textAt texts k

/-- Pieces with the markers below a number replaced. -/
def partly (texts : List (List Char)) (j : Nat) (pieces : List Piece) : List Char :=
  pieces.flatMap fun
    | .code text => text
    | .mark k => if k < j then textAt texts k else marker k

/-- Pieces as blocks around the places of one marker. -/
def blocksAt (texts : List (List Char)) (j : Nat) (pieces : List Piece) : Blocks :=
  pieces.map fun
    | .code text => some text
    | .mark k => if k = j then none else some (if k < j then textAt texts k else marker k)

section All
variable {n : Nat} {texts : List (List Char)} {pieces : List Piece}

theorem joined_blocksAt (j : Nat) :
    joined (marker j) (blocksAt texts j pieces) = partly texts j pieces := by
  rw [joined, blocksAt, List.flatMap_map, partly]
  congr 1
  funext piece
  cases piece with
  | code text => rfl
  | mark k =>
    by_cases hk : k = j
    · simp [hk]
    · simp [hk]

theorem joined_textAt (j : Nat) :
    joined (textAt texts j) (blocksAt texts j pieces) = partly texts (j + 1) pieces := by
  rw [joined, blocksAt, List.flatMap_map, partly]
  congr 1
  funext piece
  cases piece with
  | code text => rfl
  | mark k =>
    by_cases hk : k = j
    · simp [hk]
    · have hlt : k < j + 1 ↔ k < j := by omega
      simp [hk, hlt]

theorem templateOf_eq_partly (h : ∀ piece ∈ pieces, piece.Fits n) :
    templateOf pieces = partly texts 1 pieces := by
  apply List.flatMap_congr
  intro piece hmem
  cases piece with
  | code text => rfl
  | mark k =>
    have hfits : 1 ≤ k ∧ k ≤ n := h _ hmem
    have hk : ¬ k < 1 := by omega
    simp [hk]

theorem partly_eq_fill (h : ∀ piece ∈ pieces, piece.Fits n) :
    partly texts (n + 1) pieces = fill texts pieces := by
  apply List.flatMap_congr
  intro piece hmem
  cases piece with
  | code text => rfl
  | mark k =>
    have hfits : 1 ≤ k ∧ k ≤ n := h _ hmem
    have hk : k < n + 1 := by omega
    simp [hk]

/-- What a single replacement does to pieces. -/
theorem replaceAll_partly {j : Nat} (hcode : ∀ text, .code text ∈ pieces → Inert j text)
    (htexts : ∀ k, .mark k ∈ pieces → k < j → Inert j (textAt texts k)) :
    replaceAll (marker j) (textAt texts j) (partly texts j pieces) =
      partly texts (j + 1) pieces := by
  rw [← joined_blocksAt, ← joined_textAt]
  apply replaceAll_blocks
  intro text hmem
  rw [blocksAt, List.mem_map] at hmem
  obtain ⟨piece, hpiece, heq⟩ := hmem
  cases piece with
  | code code =>
    cases heq
    exact hcode text hpiece
  | mark k =>
    dsimp only at heq
    split at heq
    · cases heq
    · next hk =>
      cases heq
      split
      · next hlt => exact htexts k hpiece hlt
      · exact inert_marker hk

theorem splice_append (a b : List (List Char)) (first : Nat) (condition : List Char) :
    splice first (a ++ b) condition = splice (first + a.length) b (splice first a condition) := by
  induction a generalizing first condition with
  | nil => rfl
  | cons text a ih =>
    rw [List.cons_append, splice, splice, ih, List.length_cons]
    congr 1
    omega

/-- **The first replacements.** The induction is on their number, and one more is a replacement in
the pieces with the markers before it replaced. -/
theorem splice_take (hlength : texts.length = n) (hfits : ∀ piece ∈ pieces, piece.Fits n) {m : Nat}
    (hm : m ≤ n) (htexts : ∀ k j, 1 ≤ k → k < j → j ≤ m → Inert j (textAt texts k)) :
    splice 1 (texts.take m) (templateOf pieces) = partly texts (m + 1) pieces := by
  induction m with
  | zero => exact templateOf_eq_partly hfits
  | succ m ih =>
    have hlt : m < texts.length := by omega
    have htext : texts.get ⟨m, hlt⟩ = textAt texts (m + 1) := by
      simp [textAt, List.getD_eq_getElem?_getD, hlt]
    have hfirst := ih (by omega) fun k j hk hkj hjm => htexts k j hk hkj (by omega)
    have htake : texts.take (m + 1) = texts.take m ++ [textAt texts (m + 1)] := by
      rw [List.take_succ_eq_append_getElem hlt, ← htext]
      rfl
    rw [htake, splice_append, hfirst, List.length_take, Nat.min_eq_left hlt.le, Nat.add_comm 1 m]
    apply replaceAll_partly
    · intro text hmem
      exact hfits _ hmem (m + 1) (by omega) (by omega)
    · intro k hmem hk
      have hmark : 1 ≤ k ∧ k ≤ n := hfits _ hmem
      exact htexts k (m + 1) hmark.1 hk (by omega)

/-- **All replacements.** With harmless texts every marker is replaced at once. -/
theorem splice_eq_fill (hlength : texts.length = n) (hfits : ∀ piece ∈ pieces, piece.Fits n)
    (htexts : ∀ k, 1 ≤ k → k ≤ n → Harmless n k (textAt texts k)) :
    splice 1 texts (templateOf pieces) = fill texts pieces := by
  have hall := splice_take hlength hfits (Nat.le_refl n)
    fun k j hk hkj hjn => htexts k hk (by omega) j hkj hjn
  rwa [List.take_of_length_le (by omega), partly_eq_fill hfits] at hall

end All

/-! ## Templates of conditions -/

/-- The pieces of a condition's template, with its phrases numbered from `first` on. -/
def piecesFrom : Nat → List Condition.Part → List Piece
  | _, [] => []
  | first, .plain text :: parts => .code text :: piecesFrom first parts
  | first, .phrase _ :: parts => .mark first :: piecesFrom (first + 1) parts

theorem templateFrom_eq (first : Nat) (parts : List Condition.Part) :
    templateFrom first parts = templateOf (piecesFrom first parts) := by
  induction parts generalizing first with
  | nil => rfl
  | cons part parts ih =>
    cases part with
    | plain text =>
      rw [templateFrom, ih]
      rfl
    | phrase text =>
      rw [templateFrom, ih]
      rfl

theorem mem_piecesFrom {piece : Piece} {first : Nat} {parts : List Condition.Part}
    (h : piece ∈ piecesFrom first parts) :
    (∃ text, piece = .code text ∧ .plain text ∈ parts) ∨
      ∃ k, piece = .mark k ∧ first ≤ k ∧ k < first + (phrases parts).length := by
  induction parts generalizing first with
  | nil => cases h
  | cons part parts ih =>
    cases part with
    | plain text =>
      have hphrases : phrases (.plain text :: parts) = phrases parts := rfl
      rw [hphrases]
      rcases List.mem_cons.mp h with rfl | h
      · exact Or.inl ⟨text, rfl, List.mem_cons_self⟩
      · rcases ih h with ⟨code, rfl, hmem⟩ | hmark
        · exact Or.inl ⟨code, rfl, List.mem_cons_of_mem _ hmem⟩
        · exact Or.inr hmark
    | phrase text =>
      have hphrases : phrases (.phrase text :: parts) = text :: phrases parts := rfl
      rw [hphrases, List.length_cons]
      rcases List.mem_cons.mp h with rfl | h
      · exact Or.inr ⟨first, rfl, by omega, by omega⟩
      · rcases ih h with ⟨code, rfl, hmem⟩ | ⟨k, rfl, hfirst, hlast⟩
        · exact Or.inl ⟨code, rfl, List.mem_cons_of_mem _ hmem⟩
        · exact Or.inr ⟨k, rfl, by omega, by omega⟩

/-- **The template of a condition is made of pieces that fit**, if its plain text cannot become a
part of a marker. -/
theorem template_pieces {parts : List Condition.Part}
    (h : ∀ text, .plain text ∈ parts → Harmless (phrases parts).length 0 text) :
    template parts = templateOf (piecesFrom 1 parts) ∧
      ∀ piece ∈ piecesFrom 1 parts, piece.Fits (phrases parts).length := by
  refine ⟨templateFrom_eq 1 parts, ?_⟩
  intro piece hmem
  rcases mem_piecesFrom hmem with ⟨text, rfl, hplain⟩ | ⟨k, rfl, hfirst, hlast⟩
  · exact h text hplain
  · exact ⟨hfirst, by omega⟩

/-! ## Why harmless texts are needed -/

/-- Replacing by a shorter text makes a text shorter, unless there is nothing to replace. -/
theorem length_replaceAll {old new : List Char} (h : new.length < old.length) : ∀ text : List Char,
    (replaceAll old new text).length ≤ text.length ∧
      (text.length ≤ (replaceAll old new text).length →
        replaceAll old new text = text ∧ ¬ old <:+: text)
  | [] => by
    have hne : old ≠ [] := List.ne_nil_of_length_pos (by omega)
    refine ⟨Nat.le_refl _, fun _ => ⟨rfl, ?_⟩⟩
    rw [List.infix_nil]
    exact hne
  | c :: rest => by
    by_cases hp : old <+: c :: rest
    · obtain ⟨more, hmore⟩ := hp
      have hshort : more.length ≤ rest.length := by
        have hlength := congrArg List.length hmore
        simp only [List.length_append, List.length_cons] at hlength
        omega
      have hle := (length_replaceAll h more).1
      have hne : old ≠ [] := List.ne_nil_of_length_pos (by omega)
      rw [← hmore, replaceAll_append hne]
      simp only [List.length_append]
      exact ⟨by omega, fun hge => by omega⟩
    · obtain ⟨hle, hsame⟩ := length_replaceAll h rest
      rw [replaceAll_cons new hp]
      simp only [List.length_cons]
      refine ⟨by omega, fun hge => ?_⟩
      obtain ⟨heq, hno⟩ := hsame (by omega)
      refine ⟨by rw [heq], ?_⟩
      rw [List.infix_cons_iff, not_or]
      exact ⟨hp, hno⟩
termination_by text => text.length

theorem marker_long (k : Nat) : (['0'] : List Char).length < (marker k).length := by
  simp [marker_eq]

/-- A text that zeros leave as it is has none of their markers. -/
theorem splice_zeros (m first : Nat) (text : List Char) :
    (splice first (List.replicate m ['0']) text).length ≤ text.length ∧
      (text.length ≤ (splice first (List.replicate m ['0']) text).length →
        ∀ k, first ≤ k → k < first + m → ¬ marker k <:+: text) := by
  induction m generalizing first text with
  | zero =>
    refine ⟨Nat.le_refl _, fun _ k hk hlt => ?_⟩
    omega
  | succ m ih =>
    rw [List.replicate_succ, splice]
    obtain ⟨hle, hsame⟩ := length_replaceAll (marker_long first) text
    obtain ⟨hle', hnone⟩ := ih (first + 1) (replaceAll (marker first) ['0'] text)
    refine ⟨by omega, fun hge k hk hlt => ?_⟩
    obtain ⟨heq, hno⟩ := hsame (by omega)
    rcases Nat.eq_or_lt_of_le hk with rfl | hk
    · exact hno
    · rw [heq] at hnone hge
      exact hnone hge k hk (by omega)

/-- **A value whose text is not harmless does harm**, in a template with nothing but its marker and
code, and with no value in the other places. -/
theorem exists_splice_ne {n i : Nat} (hi : 1 ≤ i) (hn : i ≤ n) {v : Option Value}
    (h : ¬ Harmless n i (splicedText v)) :
    ∃ (vs : List (Option Value)) (pieces : List Piece), vs.length = n ∧ vs[i - 1]? = some v ∧
      (∀ k, 1 ≤ k → k ≤ n → k ≠ i → Harmless n k (textAt (vs.map splicedText) k)) ∧
      (∀ piece ∈ pieces, piece.Fits n) ∧
      splice 1 (vs.map splicedText) (templateOf pieces) ≠ fill (vs.map splicedText) pieces := by
  simp only [Harmless, Inert, not_forall, not_not] at h
  obtain ⟨j, hij, hjn, front, back, hfront, hback, hmarker⟩ := h
  have hlt : i - 1 < n := by omega
  refine ⟨(List.replicate n none).set (i - 1) v, [.code front, .mark i, .code back], by simp,
    by simp [hlt], ?_⟩
  rw [List.map_set, List.map_replicate]
  generalize splicedText v = text at hmarker
  generalize htexts : (List.replicate n (splicedText none)).set (i - 1) text = texts
  have hlength : texts.length = n := by
    rw [← htexts]
    simp
  have htext : textAt texts i = text := by
    rw [← htexts, textAt, List.getD_eq_getElem?_getD, List.getElem?_set_self (by simpa using hlt)]
    rfl
  have hzero : ∀ k, 1 ≤ k → k ≤ n → k ≠ i → textAt texts k = ['0'] := by
    intro k hk hkn hne
    have hlt : k - 1 < n := by omega
    rw [← htexts, textAt, List.getD_eq_getElem?_getD, List.getElem?_set_ne (by omega)]
    simp [hlt, splicedText]
  have hdrop : texts.drop i = List.replicate (n - i) ['0'] := by
    rw [← htexts, List.drop_set_of_lt (by omega), List.drop_replicate]
    rfl
  have hfits : ∀ piece ∈ [.code front, .mark i, .code back], Piece.Fits n piece := by
    intro piece hmem
    simp only [List.mem_cons, List.not_mem_nil, or_false] at hmem
    rcases hmem with rfl | rfl | rfl
    · exact harmless_of_caret hfront n 0
    · exact ⟨hi, hn⟩
    · exact harmless_of_caret hback n 0
  refine ⟨?_, hfits, ?_⟩
  · intro k hk hkn hne
    rw [hzero k hk hkn hne]
    exact harmless_of_caret (by decide) n k
  · have hfill : fill texts [.code front, .mark i, .code back] = front ++ text ++ back := by
      simp [fill, htext]
    have hfirst : splice 1 (texts.take i) (templateOf [.code front, .mark i, .code back]) =
        front ++ text ++ back := by
      rw [splice_take hlength hfits hn]
      · simp [partly, htext]
      · intro k j hk hkj hji
        rw [hzero k hk (by omega) (by omega)]
        exact inert_of_caret (by decide) j
    have hsplit : splice 1 texts (templateOf [.code front, .mark i, .code back]) =
        splice (i + 1) (List.replicate (n - i) ['0']) (front ++ text ++ back) := by
      rw [← hdrop, ← hfirst]
      nth_rewrite 1 [← List.take_append_drop i texts]
      rw [splice_append, List.length_take, Nat.min_eq_left (by omega), Nat.add_comm 1 i]
    rw [hsplit, hfill]
    intro heq
    have hsame := (splice_zeros (n - i) (i + 1) (front ++ text ++ back)).2 (by rw [heq])
    exact hsame j (by omega) (by omega) hmarker

/-! ## Conditions -/

section Conditions
variable {σ : Type}

/-- The truth of a condition; a faulty one is reported and does not hold. -/
def judge (condition : List Char) : Play σ Bool :=
  match Expr.evalCondition condition with
  | .ok met => return met
  | .error e => do
    note .warn .evaluation
      ("condition `" ++ String.ofList condition ++ "` failed: " ++ e.message)
    return false

theorem test_eq (host : Host σ) (base : Option Value) (frame : Nat) (params : List Statement)
    (template : String) : test host base frame params template = (do
      let vs ← values host base frame params
      judge (splice 1 (vs.map splicedText) template.toList)) := rfl

theorem length_values (host : Host σ) (base : Option Value) (frame : Nat) (params : List Statement)
    (stage : Stage σ) : ((values host base frame params).run stage).1.length = params.length := by
  induction params generalizing stage with
  | nil =>
    rw [values]
    rfl
  | cons param params ih =>
    have hrest := ih ((valueBy (chain host base frame param) param).run stage).2
    rw [values, List.length_cons, ← hrest]
    rfl

/-- The texts that the values of calls put into a condition. -/
def textsOf (host : Host σ) (base : Option Value) (frame : Nat) (params : List Statement)
    (stage : Stage σ) : List (List Char) :=
  ((values host base frame params).run stage).1.map splicedText

/-- **When markers are replaced at once.** If the text of every value is harmless in its place, then
a condition is judged as the template with all markers replaced at once. For every value with
another text there are a template and values with harmless texts in the other places such that
something else is judged. -/
theorem test_at_once :
    (∀ (host : Host σ) (base : Option Value) (frame : Nat) (params : List Statement)
      (pieces : List Piece) (stage : Stage σ), (∀ piece ∈ pieces, piece.Fits params.length) →
      (∀ k, 1 ≤ k → k ≤ params.length →
        Harmless params.length k (textAt (textsOf host base frame params stage) k)) →
      (test host base frame params (String.ofList (templateOf pieces))).run stage =
        (judge (fill (textsOf host base frame params stage) pieces)).run
          ((values host base frame params).run stage).2) ∧
    ∀ (n i : Nat) (v : Option Value), 1 ≤ i → i ≤ n → ¬ Harmless n i (splicedText v) →
      ∃ (vs : List (Option Value)) (pieces : List Piece), vs.length = n ∧ vs[i - 1]? = some v ∧
        (∀ k, 1 ≤ k → k ≤ n → k ≠ i → Harmless n k (textAt (vs.map splicedText) k)) ∧
        (∀ piece ∈ pieces, piece.Fits n) ∧
        splice 1 (vs.map splicedText) (templateOf pieces) ≠ fill (vs.map splicedText) pieces := by
  constructor
  · intro host base frame params pieces stage hfits htexts
    have hlength : (textsOf host base frame params stage).length = params.length := by
      rw [textsOf, List.length_map, length_values]
    rw [← splice_eq_fill hlength hfits htexts, test_eq, String.toList_ofList]
    rfl
  · intro n i v hi hn h
    exact exists_splice_ne hi hn h

/-- A host that answers nothing. -/
def silent : Host Unit := ⟨fun _ _ => ⟨.absent, (), []⟩, fun _ _ => ⟨[], (), []⟩⟩

/-- The first sign of a marker, and a letter. -/
def signAndLetter : List Statement := [[.constant "\"@\""], [.constant "\"b\""]]

/-- A template with its markers in the opposite order. -/
def swapped : List Piece := [.mark 2, .code ['<'], .mark 1]

theorem textsOf_signAndLetter : textsOf silent none 1 signAndLetter ⟨(), #[]⟩ = [['@'], ['b']] := by
  simp only [textsOf, signAndLetter, values]
  rfl

theorem test_at_once_swapped :
    (∀ piece ∈ swapped, piece.Fits 2) ∧
    (test silent none 1 signAndLetter (String.ofList (templateOf swapped))).run ⟨(), #[]⟩ =
      (judge ['b', '<', '@']).run ((values silent none 1 signAndLetter).run ⟨(), #[]⟩).2 := by
  have hfits : ∀ piece ∈ swapped, piece.Fits signAndLetter.length := by
    intro piece hmem
    simp only [swapped, List.mem_cons, List.not_mem_nil, or_false] at hmem
    rcases hmem with rfl | rfl | rfl
    · exact ⟨by decide, by decide⟩
    · exact harmless_of_caret (by decide) 2 0
    · exact ⟨by decide, by decide⟩
  have hharmless : ∀ k, 1 ≤ k → k ≤ signAndLetter.length → Harmless signAndLetter.length k
      (textAt (textsOf silent none 1 signAndLetter ⟨(), #[]⟩) k) := by
    intro k hk hle
    have hlength : signAndLetter.length = 2 := rfl
    rw [textsOf_signAndLetter]
    obtain rfl | rfl : k = 1 ∨ k = 2 := by omega
    · exact harmless_of_caret (by decide) 2 1
    · exact harmless_of_caret (by decide) 2 2
  have hrun := test_at_once.1 silent none 1 signAndLetter swapped ⟨(), #[]⟩ hfits hharmless
  rw [textsOf_signAndLetter] at hrun
  exact ⟨hfits, hrun⟩

/-- A variable whose text is the second marker, in quotes, and a number: the number is put into the
quotes as well. -/
theorem splice_marker_value :
    [some (Value.str "'@^statement2$@'"), some (.str "5")].map splicedText =
      ["'@^statement2$@'".toList, ['5']] ∧
    templateOf [.mark 1, .code " == ".toList, .mark 2] = "@^statement1$@ == @^statement2$@".toList ∧
    splice 1 ["'@^statement2$@'".toList, ['5']] "@^statement1$@ == @^statement2$@".toList =
      "'5' == 5".toList ∧
    fill ["'@^statement2$@'".toList, ['5']] [.mark 1, .code " == ".toList, .mark 2] =
      "'@^statement2$@' == 5".toList ∧
    "'5' == 5".toList ≠ "'@^statement2$@' == 5".toList := by
  refine ⟨by decide +kernel, by decide +kernel, by decide +kernel, by decide +kernel, by decide⟩

end Conditions

end Cutscene.Play
