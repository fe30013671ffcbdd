import Cutscene.Proofs.Source.Comments
import Cutscene.Proofs.Source.Spacing
import Cutscene.Proofs.Statement.Comparison

/-!
Reading a text whose literals are known.

A text is woven of segments of code and the string literals between them. Taking comments out leaves the
literals as they are (`dropComments_weave`), and a definition would stand inside one of them, since its
keyword has no quotes (`keyword_weave`). Then names stand for the literals, so what the layout, the
fragments and the shapes of the text are is decided by its code alone (`layOut_weave`, `fragments_weave`,
`ofChain_weave`).

The simplest such text is a call with a literal as its argument: it is read to a call whose parameter is
the literal as it was written (`read_call`).
-/
namespace Cutscene

open Text Source

/-- A word without a character is on one side of it. -/
theorem infix_append_cons {word a b : List Char} {x : Char} (hx : x ∉ word)
    (h : word <:+: a ++ x :: b) : word <:+: a ∨ word <:+: b := by
  obtain ⟨s, t, heq⟩ := h
  rcases List.append_eq_append_iff.mp heq with ⟨more, ha, -⟩ | ⟨more, hs, hb⟩
  · exact Or.inl ⟨s, more, ha.symm⟩
  · cases more with
    | nil => exact Or.inl ⟨s, [], by simpa using hs⟩
    | cons y more =>
      obtain ⟨rfl, rfl⟩ := List.cons.inj hb
      -- the character stands before the word, since it does not stand in it
      rcases List.append_eq_append_iff.mp hs with ⟨front, -, hword⟩ | ⟨front, -, hword⟩
      · exact absurd (by simp [hword]) hx
      · cases front with
        | nil =>
          have hstart : word = x :: more := hword.symm
          exact absurd (by simp [hstart]) hx
        | cons z front =>
          obtain ⟨-, rfl⟩ := List.cons.inj hword
          exact Or.inr ⟨front, t, rfl⟩

/-- A text with something other than blanks at both ends is trimmed already. -/
theorem trim_ends {a b : List Char} (ha : a.head?.any (fun c => !isBlank c) = true)
    (hb : b.getLast?.any (fun c => !isBlank c) = true) (middle : List Char) :
    trim (a ++ (middle ++ b)) = a ++ (middle ++ b) := by
  obtain ⟨first, hhead, hfirst⟩ := (Option.any_eq_true _ _).mp ha
  obtain ⟨last, hend, hlast⟩ := (Option.any_eq_true _ _).mp hb
  obtain ⟨a, rfl⟩ := List.head?_eq_some_iff.mp hhead
  obtain ⟨b, rfl⟩ := List.getLast?_eq_some_iff.mp hend
  rw [Bool.not_eq_true'] at hfirst hlast
  simp [trim, trimStart, trimEnd, hfirst, hlast]

/-- Literals and segments of code that can be woven: the code has no quotes. -/
structure Weavable (first : List Char) (literals codes : List (List Char)) : Prop where
  length : literals.length = codes.length
  code : ∀ code ∈ first :: codes, '"' ∉ code
  literal : ∀ literal ∈ literals, IsLiteral literal

section Woven
variable {first : List Char} {literals codes : List (List Char)}

theorem Weavable.tail {literal code : List Char}
    (h : Weavable first (literal :: literals) (code :: codes)) : Weavable code literals codes where
  length := Nat.succ.inj h.length
  code := (List.forall_mem_cons.mp h.code).2
  literal := (List.forall_mem_cons.mp h.literal).2

theorem Weavable.hide (h : Weavable first literals codes) :
    Text.hide .string {} (weave first literals codes) (.tagged "string") =
      .ok (render (woven 0 first codes), ⟨literalTag, literals⟩) :=
  hide_weave h.length (h.code first (by simp)) (List.forall_mem_cons.mp h.code).2 h.literal

/-! ## The source -/

theorem dropComments_weave (h : Weavable first literals codes)
    (hslash : ∀ code ∈ first :: codes, '/' ∉ code) :
    dropComments .code (weave first literals codes) = weave first literals codes := by
  induction codes generalizing first literals with
  | nil =>
    obtain rfl : literals = [] := List.length_eq_zero_iff.mp h.length
    have hplain := dropComments_plain (hslash first (by simp)) (h.code first (by simp)) []
    rw [List.append_nil] at hplain
    exact hplain.trans (List.append_nil first)
  | cons code codes ih =>
    cases literals with
    | nil => cases h.length
    | cons literal literals =>
      obtain ⟨hfirst, hothers⟩ := List.forall_mem_cons.mp hslash
      rw [weave, dropComments_plain hfirst (h.code first (by simp)),
        dropComments_literal (h.literal literal (by simp)), ih h.tail hothers]

/-- A word without quotes is in the code or in a literal. -/
theorem infix_weave {word : List Char} (hword : '"' ∉ word) (h : Weavable first literals codes)
    (hin : word <:+: weave first literals codes) :
    (∃ code ∈ first :: codes, word <:+: code) ∨ ∃ literal ∈ literals, word <:+: literal := by
  induction codes generalizing first literals with
  | nil =>
    obtain rfl : literals = [] := List.length_eq_zero_iff.mp h.length
    exact Or.inl ⟨first, by simp, hin⟩
  | cons code codes ih =>
    cases literals with
    | nil => cases h.length
    | cons literal literals =>
      obtain ⟨body, hbody, -⟩ := h.literal literal (by simp)
      have hweave : weave first (literal :: literals) (code :: codes) =
          first ++ '"' :: (body ++ '"' :: weave code literals codes) := by simp [weave, hbody]
      rw [hweave] at hin
      rcases infix_append_cons hword hin with hfirst | hrest
      · exact Or.inl ⟨first, by simp, hfirst⟩
      · rcases infix_append_cons hword hrest with hinside | hrest
        · refine Or.inr ⟨literal, by simp, ?_⟩
          rw [hbody]
          exact hinside.trans ⟨['"'], ['"'], by simp⟩
        · rcases ih h.tail hrest with ⟨c, hc, hinside⟩ | ⟨l, hl, hinside⟩
          · exact Or.inl ⟨c, List.mem_cons_of_mem _ hc, hinside⟩
          · exact Or.inr ⟨l, List.mem_cons_of_mem _ hl, hinside⟩

/-- The keyword of a definition has no quotes. -/
theorem keyword_weave (h : Weavable first literals codes)
    (hcodes : ∀ code ∈ first :: codes, ¬ Alias.keyword <:+: code)
    (hliterals : ∀ literal ∈ literals, ¬ Alias.keyword <:+: literal) :
    ¬ Alias.keyword <:+: weave first literals codes := by
  intro hin
  rcases infix_weave (by decide) h hin with ⟨code, hcode, hinside⟩ | ⟨literal, hliteral, hinside⟩
  · exact hcodes code hcode hinside
  · exact hliterals literal hliteral hinside

/-- **The layout sees the code with names in it**, if nothing is defined and no alias is expanded. -/
theorem layOut_weave {source : List Char} (h : Weavable first literals codes)
    (hsource : stripComments source = weave first literals codes)
    (hkeyword : ¬ Alias.keyword <:+: weave first literals codes)
    (hstring : '"' ∉ render (woven 0 first codes)) (hquote : '\'' ∉ render (woven 0 first codes)) :
    layOut source = .ok ⟨layout (render (woven 0 first codes)), ⟨literalTag, literals⟩⟩ := by
  have hagain := hide_eq_self (d := .string) hstring {} ⟨literalTag, literals⟩
  simp only [layOut, hsource, strip_eq_self hkeyword, collect_eq_nil hkeyword, h.hide, bind,
    Except.bind, Alias.substitute, List.foldl_nil, hagain, hideQuoted_eq_self hquote]
  rfl

/-- So the fragments come from the code with names in it, when it is known how that splits. -/
theorem fragments_weave {source : List Char} {prepared : Prepared} (h : Weavable first literals codes)
    (hsource : stripComments source = weave first literals codes)
    (hkeyword : ¬ Alias.keyword <:+: weave first literals codes)
    (hstring : '"' ∉ render (woven 0 first codes)) (hquote : '\'' ∉ render (woven 0 first codes))
    (hsplit : split ⟨layout (render (woven 0 first codes)), ⟨literalTag, literals⟩⟩ = .ok prepared) :
    fragments source = .ok prepared.fragments := by
  rw [fragments, prepare, layOut_weave h hsource hkeyword hstring hquote]
  simp only [bind, Except.bind, hsplit]
  rfl

/-! ## A statement -/

/-- **The shapes of a chain come from the code with names in it**, when it is known what is hidden there. -/
theorem ofChain_weave {noObjects noLists : List Char} {objects lists : Placeholders}
    (h : Weavable first literals codes) (hquote : '\'' ∉ render (woven 0 first codes))
    (hobjects : hide .brace {} (render (woven 0 first codes)) (.tagged "object") =
      .ok (noObjects, objects))
    (hlists : hide .parenthesis {} noObjects (.tagged "param") = .ok (noLists, lists)) :
    Shape.ofChain (weave first literals codes) = .ok (((splitOn '.' noLists).map lists.restore).map
      (Shape.ofPiece ⟨⟨literalTag, literals⟩, objects⟩)) := by
  simp only [Shape.ofChain, h.hide, bind, Except.bind, hideQuoted_eq_self hquote, hobjects, hlists,
    List.map_map]
  rfl

end Woven

/-! ## A call with a literal -/

/-- A text with a parenthesis in it is no number. -/
theorem isNumber_of_parenthesis {text : List Char} (h : '(' ∈ text) : isNumber text = false := by
  have hrest : ∀ digits : List Char, '(' ∈ digits →
      digits.all (fun c => c.isDigit || c = '.') = false := by
    intro digits hmem
    exact List.all_eq_false.mpr ⟨'(', hmem, by decide⟩
  rw [isNumber]
  split
  · next hsign =>
    -- the sign is not the parenthesis, which stands behind it
    cases text with
    | nil => cases h
    | cons c text =>
      have hne : '(' ≠ c := by
        rintro rfl
        simp at hsign
      simp [hrest text ((List.mem_cons.mp h).resolve_left hne)]
  · simp [hrest text h]

/-- An argument list with one literal in it, which has its name there, is hidden as a whole. -/
theorem hide_argument {path : List Char} (h : '(' ∉ path) :
    hide .parenthesis {} (path ++ '(' :: (spelled literalTag 0 ++ [')'])) (.tagged "param") =
      .ok (path ++ spelled "param".toList 0,
        ⟨"param".toList, ['(' :: (spelled literalTag 0 ++ [')'])]⟩) := by
  have hlist : Delimiter.parenthesis.cut ('(' :: (spelled literalTag 0 ++ [')'])) =
      [.span ('(' :: (spelled literalTag 0 ++ [')']))] := by cbv
  have hcut : Delimiter.parenthesis.cut (path ++ '(' :: (spelled literalTag 0 ++ [')'])) =
      path.map .plain ++ [.span ('(' :: (spelled literalTag 0 ++ [')']))] := by
    rw [← hlist]
    exact cutFrom_plain (look_plain h) _
  simp only [hide, hcut, unclosedText_plain, conceal_plain]
  rfl

/-- The links of a call whose argument is a literal, for the names before the parenthesis with points
between them. -/
def callShapes (path literal : List Char) : List (Except ScriptFault Shape) :=
  ((splitOn '.' (path ++ spelled "param".toList 0)).map
    (Placeholders.restore ⟨"param".toList, ['(' :: (spelled literalTag 0 ++ [')'])]⟩)).map
      (Shape.ofPiece ⟨⟨literalTag, [literal]⟩, .tagged "object"⟩)

/-- A character of the names before the parenthesis of a call. -/
def isNaming (c : Char) : Bool := c.isAlpha || c = '.'

theorem isBlank_of_isNaming {c : Char} (h : isNaming c = true) : isBlank c = false := by
  rw [isNaming, Bool.or_eq_true, decide_eq_true_eq] at h
  rcases h with hletter | rfl
  · rw [Bool.eq_false_iff]
    intro hblank
    have hrange := toNat_of_isSpelling (c := c) (by simp [isSpelling, Char.isAlphanum, hletter])
    have houtside := toNat_of_isBlank hblank
    omega
  · decide

section Call
variable {path literal : List Char} (hpath : ∀ c ∈ path, isNaming c = true)

include hpath

theorem notMem_path {c : Char} (hc : isNaming c = false) : c ∉ path := by
  intro hmem
  cases hc.symm.trans (hpath c hmem)

theorem trim_call (literal : List Char) :
    trim (path ++ '(' :: (literal ++ [')'])) = path ++ '(' :: (literal ++ [')']) := by
  have hhead : (path ++ ['(']).head?.any (fun c => !isBlank c) = true := by
    cases path with
    | nil => decide
    | cons c path => simp [isBlank_of_isNaming (hpath c (by simp))]
  rw [List.append_cons, trim_ends hhead rfl]

theorem weavable_call (h : IsLiteral literal) : Weavable (path ++ ['(']) [literal] [[')']] := by
  have hquote : '"' ∉ path := notMem_path hpath (by decide)
  exact ⟨rfl, by simp [hquote], by simpa using h⟩

/-- **What a literal holds makes no difference to the links of a call** that has it as its argument. -/
theorem ofFragment_call (h : IsLiteral literal) :
    Shape.ofFragment (path ++ '(' :: (literal ++ [')'])) = .ok (callShapes path literal) := by
  have hrender : render (woven 0 (path ++ ['(']) [[')']]) =
      path ++ '(' :: (spelled literalTag 0 ++ [')']) := by
    simp [woven, render_map_char, Glyph.text]
  have hquote : '\'' ∉ render (woven 0 (path ++ ['(']) [[')']]) := by
    have hname : '\'' ∉ '(' :: (spelled literalTag 0 ++ [')']) := by decide
    rw [hrender, List.mem_append]
    exact fun hmem => hmem.elim (notMem_path hpath (by decide)) hname
  have hbrace : '\x7b' ∉ render (woven 0 (path ++ ['(']) [[')']]) := by
    have hname : '\x7b' ∉ '(' :: (spelled literalTag 0 ++ [')']) := by decide
    rw [hrender, List.mem_append]
    exact fun hmem => hmem.elim (notMem_path hpath (by decide)) hname
  have hchain : Shape.ofChain (path ++ '(' :: (literal ++ [')'])) = .ok (callShapes path literal) := by
    rw [List.append_cons]
    refine ofChain_weave (weavable_call hpath h) hquote (hide_eq_self hbrace _ _) ?_
    rw [hrender]
    exact hide_argument (notMem_path hpath (by decide))
  have hempty : (path ++ '(' :: (literal ++ [')'])).isEmpty = false := by simp
  rw [Shape.ofFragment, trim_call hpath, hempty, isNumber_of_parenthesis (by simp)]
  exact hchain

omit hpath in
/-- A literal on its own is a constant. -/
theorem read_literal (h : IsLiteral literal) (depth : Nat) :
    Statement.read (depth + 1) literal = .ok [.constant (String.ofList literal)] := by
  have hobjects : hide .brace {} (render (woven 0 [] [[]])) (.tagged "object") =
      .ok (spelled literalTag 0, .tagged "object") := by cbv
  have hlists : hide .parenthesis {} (spelled literalTag 0) (.tagged "param") =
      .ok (spelled literalTag 0, .tagged "param") := by cbv
  have hweavable : Weavable [] [literal] [[]] := ⟨rfl, by decide, by simpa using h⟩
  have hchain : Shape.ofChain (weave [] [literal] [[]]) = .ok [.ok (Shape.ofBare (literal ++ []))] :=
    ofChain_weave hweavable (by decide) hobjects hlists
  have hweave : weave [] [literal] [[]] = literal := by simp [weave]
  rw [hweave, List.append_nil] at hchain
  obtain ⟨body, rfl, -⟩ := h
  have htrim : trim ('"' :: (body ++ ['"'])) = '"' :: (body ++ ['"']) :=
    trim_ends (a := ['"']) (b := ['"']) rfl rfl body
  have hshapes : Shape.ofFragment ('"' :: (body ++ ['"'])) =
      .ok [.ok (Shape.ofBare ('"' :: (body ++ ['"'])))] := by
    rw [Shape.ofFragment, htrim, ← hchain]
    rfl
  rw [Statement.read, Statement.readWith, hshapes]
  rfl

/-- **A call with a literal is read to a call whose parameter is the literal as it was written**, behind
the links before it. -/
theorem read_call (h : IsLiteral literal) {links : List Link} {name : String}
    (hshapes : callShapes path literal = links.map (fun link => .ok (.leaf link)) ++
      [.ok (.method name false [literal ++ []] none)]) (depth : Nat) :
    Statement.read (depth + 2) (path ++ '(' :: (literal ++ [')'])) =
      .ok (links ++ [.method name [[.constant (String.ofList literal)]] false]) := by
  have hlinks : (links.map fun link => .ok (.leaf link)).mapM
      (Shape.fillFound (Statement.read (depth + 1))) = .ok (links.map fun link => [link]) := by
    rw [List.mapM_map]
    exact List.mapM_pure
  have hcall : [.ok (.method name false [literal] none)].mapM
      (Shape.fillFound (Statement.read (depth + 1))) =
      .ok [[.method name [[.constant (String.ofList literal)]] false]] := by
    simp only [List.mapM_cons, List.mapM_nil, fillFound_ok, Shape.fill, read_literal h]
    rfl
  have hread : (callShapes path literal).mapM (Shape.fillFound (Statement.read (depth + 1))) =
      .ok (links.map (fun link => [link]) ++ [[.method name [[.constant (String.ofList literal)]] false]]) := by
    rw [hshapes, List.append_nil, List.mapM_append, hlinks, hcall]
    rfl
  rw [Statement.read, readWith_shapes (ofFragment_call hpath h) hread, List.flatten_append,
    ← List.flatMap_def, List.flatMap_singleton']
  rfl

end Call

end Cutscene
