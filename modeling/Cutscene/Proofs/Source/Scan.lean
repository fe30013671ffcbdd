import Cutscene.Proofs.Source.Skeleton

/-!
The fragments of a source from one scan.

The preparation of a source hides its literals, argument lists and blocks in three tables, splits what
is left and puts everything back. The scan of this module does the same in one pass over the text that
is laid out (`scan`): it skips literals and groups in parentheses, counts braces, and cuts at
semicolons outside blocks and behind the brace that closes an outermost block.

Both are compared through tokens. What the scan skips is one token (`scan_tokens`), and the statements
among tokens depend on their signs only (`statements_map`). The names that hiding writes have the signs
of the tokens they stand for, so what splitting gives are the statements (`split_eq`). All that is
hidden is closed just if the literals are and the skeleton is balanced (`fragments_eq`,
`balanced_of_fragments`).
-/
namespace Cutscene.Source

open Text

/-! ## The scan -/

/-- A text with its string literals blanked out: each of their characters is a quote. -/
def blanked (text : List Char) : List Char :=
  (Delimiter.string.cut text).flatMap fun
    | .plain c => [c]
    | piece => piece.text.map fun _ => '"'

/-- What a scan skips: a string literal, or a group in parentheses up to the closing one that
balances it, where parentheses in literals do not count. -/
def lookSkipped (c : Char) (rest : List Char) : Sight :=
  if c = '(' then Delimiter.parenthesis.look c (blanked rest) else Delimiter.string.look c rest

/-- The depth of braces behind a character. A closing brace right behind a backslash, or at depth
zero, is ordinary text. -/
def depthBehind (depth : Nat) (previous c : Char) : Nat :=
  if c = '\x7b' then depth + 1 else if c = '\x7d' && previous ≠ '\\' then depth - 1 else depth

/-- Whether a character closes an outermost block. -/
def closesBlock (depth : Nat) (previous c : Char) : Bool :=
  depth = 1 && c = '\x7d' && previous ≠ '\\'

/-- The parts of a text that is scanned at a depth of braces and behind the character `previous`,
where the first `skip` characters are skipped. -/
def scanFrom : Nat → Nat → Char → List Char → List (List Char)
  | _, _, _, [] => [[]]
  | skip + 1, depth, _, c :: rest => (scanFrom skip depth c rest).modifyHead (c :: ·)
  | 0, depth, previous, c :: rest =>
    match lookSkipped c rest with
    | .span more => (scanFrom more depth c rest).modifyHead (c :: ·)
    | _ =>
      if c = ';' && depth = 0 then [] :: scanFrom 0 depth c rest
      else if closesBlock depth previous c then [c] :: scanFrom 0 0 c rest
      else (scanFrom 0 (depthBehind depth previous c) c rest).modifyHead (c :: ·)

/-- The parts of a text between its semicolons outside blocks and behind its outermost blocks. -/
def scan (text : List Char) : List (List Char) := scanFrom 0 0 '\x00' text

/-- The parts of a scan and the semicolons at which it cuts are the text. -/
theorem scanFrom_lossless (skip depth : Nat) (previous : Char) (text : List Char) :
    ∃ first rest marks, scanFrom skip depth previous text = first :: rest ∧
      marks.length = rest.length + 1 ∧ (∀ mark ∈ marks, mark = [] ∨ mark = [';']) ∧
      (List.zipWith (· ++ ·) (first :: rest) marks).flatten = text := by
  induction text generalizing skip depth previous with
  | nil => exact ⟨[], [], [[]], by cases skip <;> rfl, rfl, by simp, rfl⟩
  | cons c text ih =>
    -- the character goes to the first part behind it, or it stands before a cut
    have hjoin : ∀ skip depth, ∃ first rest marks,
        (scanFrom skip depth c text).modifyHead (c :: ·) = first :: rest ∧
        marks.length = rest.length + 1 ∧ (∀ mark ∈ marks, mark = [] ∨ mark = [';']) ∧
        (List.zipWith (· ++ ·) (first :: rest) marks).flatten = c :: text := by
      intro skip depth
      obtain ⟨first, rest, marks, hscan, hlength, hmarks, htext⟩ := ih skip depth c
      refine ⟨c :: first, rest, marks, by rw [hscan]; rfl, hlength, hmarks, ?_⟩
      cases marks with
      | nil => simp at hlength
      | cons mark marks =>
        rw [List.zipWith_cons_cons, List.flatten_cons] at htext ⊢
        rw [← htext]
        simp
    have hcut : ∀ part mark, part ++ mark = [c] → mark = [] ∨ mark = [';'] → ∀ depth,
        ∃ first rest marks, part :: scanFrom 0 depth c text = first :: rest ∧
        marks.length = rest.length + 1 ∧ (∀ mark ∈ marks, mark = [] ∨ mark = [';']) ∧
        (List.zipWith (· ++ ·) (first :: rest) marks).flatten = c :: text := by
      intro part mark hpart hmark depth
      obtain ⟨first, rest, marks, hscan, hlength, hmarks, htext⟩ := ih 0 depth c
      refine ⟨part, first :: rest, mark :: marks, by rw [hscan], by simp [hlength], ?_, ?_⟩
      · exact List.forall_mem_cons.mpr ⟨hmark, hmarks⟩
      · rw [List.zipWith_cons_cons, List.flatten_cons, htext, hpart]
        rfl
    cases skip with
    | succ skip => exact hjoin skip depth
    | zero =>
      rw [scanFrom]
      split
      · exact hjoin _ depth
      · split
        · next hmark =>
          simp only [Bool.and_eq_true, decide_eq_true_eq] at hmark
          exact hcut [] [c] rfl (Or.inr (by rw [hmark.1])) depth
        · split
          · exact hcut [c] [] rfl (Or.inl rfl) 0
          · exact hjoin 0 _

/-- **A scan loses nothing**, and it neither doubles nor moves anything. -/
theorem scan_lossless (text : List Char) :
    ∃ marks : List (List Char), marks.length = (scan text).length ∧
      (∀ mark ∈ marks, mark = [] ∨ mark = [';']) ∧
      (List.zipWith (· ++ ·) (scan text) marks).flatten = text := by
  obtain ⟨first, rest, marks, hscan, hlength, hmarks, hjoined⟩ := scanFrom_lossless 0 0 '\x00' text
  rw [← scan] at hscan
  refine ⟨marks, ?_, hmarks, ?_⟩
  · rw [hscan, hlength, List.length_cons]
  · rw [hscan, hjoined]

/-! ## Statements among tokens -/

/-- The statements among tokens with signs, at a depth of braces and behind the sign `previous`. -/
def statements {α : Type} (sign : α → Char) : Nat → Char → List α → List (List α)
  | _, _, [] => [[]]
  | depth, previous, token :: rest =>
    if sign token = ';' && depth = 0 then [] :: statements sign depth (sign token) rest
    else if closesBlock depth previous (sign token) then
      [token] :: statements sign 0 (sign token) rest
    else
      (statements sign (depthBehind depth previous (sign token)) (sign token) rest).modifyHead
        (token :: ·)

section Statements
variable {α β : Type} {sign : α → Char}

theorem statements_ne_nil (depth : Nat) (previous : Char) (tokens : List α) :
    statements sign depth previous tokens ≠ [] := by
  induction tokens generalizing depth previous with
  | nil => simp [statements]
  | cons token rest ih =>
    rw [statements]
    split
    · simp
    · split
      · simp
      · obtain ⟨first, others, heq⟩ := List.exists_cons_of_ne_nil
          (ih (depthBehind depth previous (sign token)) (sign token))
        simp [heq]

/-- Statements depend on the signs of tokens only. -/
theorem statements_map (f : β → α) (depth : Nat) (previous : Char) (tokens : List β) :
    statements sign depth previous (tokens.map f) =
      (statements (fun token => sign (f token)) depth previous tokens).map (List.map f) := by
  induction tokens generalizing depth previous with
  | nil => rfl
  | cons token rest ih =>
    simp only [List.map_cons, statements]
    split
    · rw [ih]
      rfl
    · split
      · rw [ih]
        rfl
      · rw [ih]
        cases statements (fun token => sign (f token)) _ _ rest <;> rfl

/-- A token that is no semicolon and no brace goes to the first statement behind it. -/
theorem statements_ordinary {token : α} (hmark : sign token ≠ ';') (hopen : sign token ≠ '\x7b')
    (hclose : sign token ≠ '\x7d') (depth : Nat) (previous : Char) (rest : List α) :
    statements sign depth previous (token :: rest) =
      (statements sign depth (sign token) rest).modifyHead (token :: ·) := by
  have hcloses : closesBlock depth previous (sign token) = false := by simp [closesBlock, hclose]
  have hdepth : depthBehind depth previous (sign token) = depth := by
    simp [depthBehind, hopen, hclose]
  rw [statements, hcloses, hdepth]
  simp [hmark]

/-- **From inside a block, the statement goes on to the brace that closes it.** -/
theorem statements_close {depth : Nat} {previous : Char} {tokens : List α} {n : Nat}
    (h : Delimiter.brace.closeFrom depth previous (tokens.map sign) = some n) :
    statements sign (depth + 1) previous tokens =
      tokens.take (n + 1) :: statements sign 0 '\x7d' (tokens.drop (n + 1)) := by
  induction tokens generalizing depth previous n with
  | nil => cases h
  | cons token rest ih =>
    rw [List.map_cons] at h
    -- the block goes on behind the token
    have hgoes : ∀ inner m, Delimiter.brace.closeFrom inner (sign token) (rest.map sign) = some m →
        m + 1 = n → closesBlock (depth + 1) previous (sign token) = false →
        depthBehind (depth + 1) previous (sign token) = inner + 1 →
        statements sign (depth + 1) previous (token :: rest) =
          (token :: rest).take (n + 1) :: statements sign 0 '\x7d' ((token :: rest).drop (n + 1)) := by
      intro inner m hm hn hcloses hdepth
      rw [statements, hcloses, hdepth, ih hm, ← hn]
      simp
    by_cases hclose : sign token = '\x7d'
    · by_cases hslash : previous = '\\'
      · have hstep : Delimiter.brace.closeFrom depth previous (sign token :: rest.map sign) =
            (Delimiter.brace.closeFrom depth (sign token) (rest.map sign)).map (· + 1) := by
          simp [Delimiter.closeFrom, Delimiter.brace, hclose, hslash]
        rw [hstep, Option.map_eq_some_iff] at h
        obtain ⟨m, hm, hn⟩ := h
        exact hgoes depth m hm hn (by simp [closesBlock, hslash]) (by simp [depthBehind, hclose, hslash])
      · cases depth with
        | zero =>
          have hzero : n = 0 := by
            simpa [Delimiter.closeFrom, Delimiter.brace, hclose, hslash, eq_comm] using h
          have hcloses : closesBlock 1 previous (sign token) = true := by
            simp [closesBlock, hclose, hslash]
          rw [hzero, statements, hcloses, hclose]
          simp
        | succ outer =>
          have hstep : Delimiter.brace.closeFrom (outer + 1) previous (sign token :: rest.map sign) =
              (Delimiter.brace.closeFrom outer (sign token) (rest.map sign)).map (· + 1) := by
            simp [Delimiter.closeFrom, Delimiter.brace, hclose, hslash]
          rw [hstep, Option.map_eq_some_iff] at h
          obtain ⟨m, hm, hn⟩ := h
          exact hgoes outer m hm hn (by simp [closesBlock]) (by simp [depthBehind, hclose, hslash])
    · have hcloses : closesBlock (depth + 1) previous (sign token) = false := by
        simp [closesBlock, hclose]
      by_cases hopen : sign token = '\x7b'
      · have hstep : Delimiter.brace.closeFrom depth previous (sign token :: rest.map sign) =
            (Delimiter.brace.closeFrom (depth + 1) (sign token) (rest.map sign)).map (· + 1) := by
          simp [Delimiter.closeFrom, Delimiter.brace, hopen]
        rw [hstep, Option.map_eq_some_iff] at h
        obtain ⟨m, hm, hn⟩ := h
        exact hgoes (depth + 1) m hm hn hcloses (by simp [depthBehind, hopen])
      · have hstep : Delimiter.brace.closeFrom depth previous (sign token :: rest.map sign) =
            (Delimiter.brace.closeFrom depth (sign token) (rest.map sign)).map (· + 1) := by
          simp [Delimiter.closeFrom, Delimiter.brace, hopen, hclose]
        rw [hstep, Option.map_eq_some_iff] at h
        obtain ⟨m, hm, hn⟩ := h
        exact hgoes depth m hm hn hcloses (by simp [depthBehind, hopen, hclose])

/-- Outside blocks, a semicolon ends a statement. -/
theorem statements_mark {token : α} (hmark : sign token = ';') (previous : Char) (rest : List α) :
    statements sign 0 previous (token :: rest) = [] :: statements sign 0 ';' rest := by
  rw [statements, hmark]
  rfl

/-- Outside blocks, a token that neither ends a statement nor opens a block goes to the statement behind
it. -/
theorem statements_plain {token : α} (hmark : sign token ≠ ';') (hopen : sign token ≠ '\x7b')
    (previous : Char) (rest : List α) :
    statements sign 0 previous (token :: rest) =
      (statements sign 0 (sign token) rest).modifyHead (token :: ·) := by
  have hdepth : depthBehind 0 previous (sign token) = 0 := by simp [depthBehind, hopen]
  have hcloses : closesBlock 0 previous (sign token) = false := rfl
  rw [statements, hcloses, hdepth]
  simp [hmark]

/-- Outside blocks, a block that is closed ends a statement. -/
theorem statements_block {token : α} (hopen : sign token = '\x7b') {rest : List α} {n : Nat}
    (hclose : Delimiter.brace.close (rest.map sign) = some n) (previous : Char) :
    statements sign 0 previous (token :: rest) =
      (token :: rest.take (n + 1)) :: statements sign 0 '\x7d' (rest.drop (n + 1)) := by
  have hbehind : Delimiter.brace.closeFrom 0 '\x7b' (rest.map sign) = some n := by
    rw [closeFrom_previous _ 0 (q := '\x00') (by decide)]
    exact hclose
  have hdepth : depthBehind 0 previous '\x7b' = 1 := rfl
  have hcloses : closesBlock 0 previous '\x7b' = false := rfl
  rw [statements, hopen, hcloses, hdepth, statements_close hbehind]
  rfl

end Statements

/-! ## Tokens -/

/-- What a scan takes at once: a character, or a literal or group that it skips. -/
structure Token where
  sign : Char
  text : List Char

/-- The token of a part of glyphs that are written in some way. -/
def tokenOf (write : Glyph → List Char) (part : Part) : Token :=
  ⟨part.sign, part.glyphs.flatMap write⟩

/-- The tokens of glyphs that are written in some way: each group in parentheses is one. -/
def tokens (write : Glyph → List Char) (glyphs : List Glyph) : List Token :=
  (Delimiter.parenthesis.parts glyphs).map (tokenOf write)

/-- The texts of statements among tokens. -/
def cuts (depth : Nat) (previous : Char) (tokens : List Token) : List (List Char) :=
  (statements Token.sign depth previous tokens).map fun statement => statement.flatMap Token.text

/-- A skeleton is balanced: every group in parentheses is closed, and every block is when the groups
are taken as one sign each. -/
structure Balanced (bones : List Char) : Prop where
  groups : unclosedText (Delimiter.parenthesis.cut bones) = none
  blocks : unclosedText (Delimiter.brace.cut
    ((Delimiter.parenthesis.cut bones).map Piece.sign)) = none

/-- A token that is no semicolon and no brace goes to the first part behind it. -/
theorem cuts_ordinary {token : Token} (hmark : token.sign ≠ ';') (hopen : token.sign ≠ '\x7b')
    (hclose : token.sign ≠ '\x7d') (depth : Nat) (previous : Char) (rest : List Token) :
    cuts depth previous (token :: rest) =
      (cuts depth token.sign rest).modifyHead (token.text ++ ·) := by
  rw [cuts, statements_ordinary hmark hopen hclose, cuts]
  cases statements Token.sign depth token.sign rest <;> rfl

theorem cuts_span {token : Token} (h : token.sign = '"') (depth : Nat) (previous : Char)
    (rest : List Token) :
    cuts depth previous (token :: rest) = (cuts depth '"' rest).modifyHead (token.text ++ ·) := by
  rw [cuts_ordinary (by rw [h]; decide) (by rw [h]; decide) (by rw [h]; decide), h]

/-! ## Scanning token by token -/

theorem scanFrom_previous (depth : Nat) {p q : Char} (h : p = '\\' ↔ q = '\\') (text : List Char) :
    scanFrom 0 depth p text = scanFrom 0 depth q text := by
  cases text with
  | nil => rfl
  | cons c rest => simp only [scanFrom, closesBlock, depthBehind, ne_eq, h]

theorem scanFrom_skip (word : List Char) (depth : Nat) (previous : Char) (rest : List Char) :
    scanFrom word.length depth previous (word ++ rest) =
      (scanFrom 0 depth (word.getLastD previous) rest).modifyHead (word ++ ·) := by
  induction word generalizing previous with
  | nil =>
    show scanFrom 0 depth previous rest = (scanFrom 0 depth previous rest).modifyHead ([] ++ ·)
    cases scanFrom 0 depth previous rest <;> rfl
  | cons c word ih =>
    rw [List.length_cons, List.cons_append, scanFrom, ih, List.getLastD_cons]
    cases scanFrom 0 depth (word.getLastD c) rest <;> rfl

/-- A span that ends with no backslash is skipped as a whole. -/
theorem scanFrom_span {c last : Char} {word : List Char} (hlast : last ≠ '\\')
    {rest : List Char} (hlook : lookSkipped c (word ++ last :: rest) = .span (word.length + 1))
    (depth : Nat) (previous : Char) :
    scanFrom 0 depth previous (c :: (word ++ last :: rest)) =
      (scanFrom 0 depth '"' rest).modifyHead (c :: (word ++ [last]) ++ ·) := by
  have hword : word ++ last :: rest = (word ++ [last]) ++ rest := by simp
  have hlength : word.length + 1 = (word ++ [last]).length := by simp
  have hsame : scanFrom 0 depth last rest = scanFrom 0 depth '"' rest :=
    scanFrom_previous depth (by simp [hlast]) rest
  rw [scanFrom, hlook]
  simp only
  rw [hword, hlength, scanFrom_skip, List.getLastD_concat, hsame]
  cases scanFrom 0 depth '"' rest <;> rfl

section Written
variable {write : Glyph → List Char}

/-- A way of writing glyphs: characters as they are, none of them a quote, and names as string
literals. -/
structure WritesLiterals (write : Glyph → List Char) (glyphs : List Glyph) : Prop where
  char : ∀ c, write (.char c) = [c]
  plain : ∀ c, .char c ∈ glyphs → c ≠ '"'
  name : ∀ tag n, .name tag n ∈ glyphs → IsLiteral (write (.name tag n))

theorem WritesLiterals.tail {glyph : Glyph} {glyphs : List Glyph}
    (h : WritesLiterals write (glyph :: glyphs)) : WritesLiterals write glyphs where
  char := h.char
  plain c hmem := h.plain c (List.mem_cons_of_mem _ hmem)
  name tag n hmem := h.name tag n (List.mem_cons_of_mem _ hmem)

/-- Glyphs with quotes for the characters of their names. -/
def blanking (write : Glyph → List Char) : Glyph → List Char
  | .char c => [c]
  | .name tag n => (write (.name tag n)).map fun _ => '"'

theorem length_blanking (hchar : ∀ c, write (.char c) = [c]) (glyphs : List Glyph) :
    (glyphs.flatMap (blanking write)).length = (glyphs.flatMap write).length := by
  induction glyphs with
  | nil => rfl
  | cons glyph glyphs ih =>
    rw [List.flatMap_cons, List.flatMap_cons, List.length_append, List.length_append, ih]
    cases glyph with
    | char c => rw [hchar]; rfl
    | name tag n => rw [blanking, List.length_map]

theorem quiets_blanking {glyphs : List Glyph} (h : WritesLiterals write glyphs) :
    Quiets (blanking write) glyphs where
  char c := rfl
  name tag n hmem := by
    obtain ⟨body, hbody, -⟩ := h.name tag n hmem
    rw [blanking]
    refine ⟨by simp [hbody], fun c hc => ?_⟩
    obtain ⟨-, -, rfl⟩ := List.mem_map.mp hc
    decide

/-- Blanking the literals out of a text leaves the glyphs with quotes for the names. -/
theorem blanked_written {glyphs : List Glyph} (h : WritesLiterals write glyphs) :
    blanked (glyphs.flatMap write) = glyphs.flatMap (blanking write) := by
  induction glyphs with
  | nil => rfl
  | cons glyph glyphs ih =>
    rw [List.flatMap_cons, List.flatMap_cons, ← ih h.tail, blanked, blanked]
    cases glyph with
    | char c =>
      have hcode : '"' ∉ [c] := by simpa using (h.plain c (by simp)).symm
      rw [h.char c, cut_code hcode]
      rfl
    | name tag n =>
      rw [cut_literal (h.name tag n (by simp))]
      rfl

theorem lookSkipped_literal {body : List Char}
    (h : Delimiter.string.close (body ++ ['"']) = some body.length) (rest : List Char) :
    lookSkipped '"' (body ++ '"' :: rest) = .span (body.length + 1) := by
  have hparen : '"' ≠ '(' := by decide
  have hopen : '"' = Delimiter.string.opener := rfl
  rw [lookSkipped, if_neg hparen, Delimiter.look, if_pos hopen, close_literal h]

section Group
variable {glyphs : List Glyph} {n : Nat}
  (hclose : Delimiter.parenthesis.close (glyphs.map Glyph.sign) = some n)

include hclose

/-- The text of a group ends with its closing parenthesis. -/
theorem flatMap_group (hchar : ∀ c, write (.char c) = [c]) :
    glyphs.flatMap write =
      (glyphs.take n).flatMap write ++ ')' :: (glyphs.drop (n + 1)).flatMap write := by
  have htake := take_of_close bare_parenthesis hclose
  have hglyphs := List.take_append_drop (n + 1) glyphs
  rw [htake, List.append_assoc] at hglyphs
  calc glyphs.flatMap write
    _ = (glyphs.take n ++ ([Glyph.char ')'] ++ glyphs.drop (n + 1))).flatMap write :=
      congrArg (List.flatMap write) hglyphs.symm
    _ = _ := by simp [hchar]

/-- A group is skipped up to the parenthesis that closes it among the signs. -/
theorem lookSkipped_group (h : WritesLiterals write glyphs) :
    lookSkipped '(' (glyphs.flatMap write) = .span (((glyphs.take n).flatMap write).length + 1) := by
  have hlook : Delimiter.parenthesis.look '(' (glyphs.map Glyph.sign) = .span (n + 1) := by
    have hopen : '(' = Delimiter.parenthesis.opener := rfl
    rw [Delimiter.look, if_pos hopen, hclose]
  rw [lookSkipped, if_pos rfl, blanked_written h,
    look_span bare_parenthesis (quiets_blanking h) hlook, length_blanking h.char,
    take_of_close bare_parenthesis hclose]
  simp [h.char]

end Group

/-- **The scan takes tokens.** The parts of glyphs are the tokens of the text in which the glyphs are
written. The induction goes over the glyphs, with the number of those that belong to a group already
taken. -/
theorem scanFrom_tokens {glyphs : List Glyph} (h : WritesLiterals write glyphs) {skip : Nat}
    (hclosed : unclosedText (cutFrom Delimiter.parenthesis.look skip (glyphs.map Glyph.sign)) = none)
    (depth : Nat) (previous : Char) :
    scanFrom 0 depth previous ((glyphs.drop skip).flatMap write) =
      cuts depth previous ((Delimiter.parenthesis.partsFrom skip glyphs).map (tokenOf write)) := by
  induction glyphs generalizing skip depth previous with
  | nil => cases skip <;> rfl
  | cons glyph glyphs ih =>
    have htail := h.tail
    cases skip with
    | succ skip => exact ih htail hclosed depth previous
    | zero =>
      rw [List.map_cons, cutFrom] at hclosed
      rw [List.drop_zero, List.flatMap_cons, Delimiter.partsFrom]
      cases glyph with
      | name tag n =>
        obtain ⟨body, hbody, hclose⟩ := h.name tag n (by simp)
        have hplain : Delimiter.parenthesis.look (Glyph.name tag n).sign (glyphs.map Glyph.sign) =
            .plain := look_eq_plain.mpr (show '"' ≠ '(' by decide)
        have htext : write (.name tag n) ++ glyphs.flatMap write =
            '"' :: (body ++ '"' :: glyphs.flatMap write) := by rw [hbody]; simp
        have htoken : (tokenOf write (.glyph (.name tag n))).text = '"' :: (body ++ ['"']) := by
          simp [tokenOf, Part.glyphs, hbody]
        simp only [hplain, unclosedText] at hclosed
        have hnext := ih htail hclosed depth '"'
        rw [List.drop_zero] at hnext
        simp only [hplain, List.map_cons]
        rw [htext, scanFrom_span (by decide) (lookSkipped_literal hclose _), hnext, cuts_span rfl, htoken]
      | char c =>
        rw [h.char c, List.singleton_append]
        cases hlook : Delimiter.parenthesis.look (Glyph.char c).sign (glyphs.map Glyph.sign) with
        | unclosed => simp [hlook, unclosedText] at hclosed
        | plain =>
          have hparen : c ≠ '(' := look_eq_plain.mp hlook
          have hskip : lookSkipped c (glyphs.flatMap write) = .plain := by
            rw [lookSkipped, if_neg hparen]
            exact look_eq_plain.mpr (h.plain c (by simp))
          have htoken : (tokenOf write (.glyph (.char c))).text = [c] := by
            simp [tokenOf, Part.glyphs, h.char c]
          have hsign : (tokenOf write (.glyph (.char c))).sign = c := rfl
          simp only [hlook, unclosedText] at hclosed
          have hnext := ih htail hclosed
          rw [List.drop_zero] at hnext
          simp only [scanFrom, hskip, hnext, List.map_cons, cuts, statements, hsign]
          split
          · rfl
          · split
            · simp [htoken]
            · cases statements Token.sign (depthBehind depth previous c) c _ <;> simp [htoken]
        | span more =>
          obtain ⟨hopen, n, hclose, rfl⟩ := close_of_look hlook
          obtain rfl : c = '(' := hopen
          have hskip := lookSkipped_group hclose htail
          have htoken : (tokenOf write (.span (.char '(' :: glyphs.take (n + 1)))).text =
              '(' :: ((glyphs.take n).flatMap write ++ [')']) := by
            simp [tokenOf, Part.glyphs, h.char, take_of_close bare_parenthesis hclose,
              Delimiter.parenthesis]
          simp only [hlook, unclosedText] at hclosed
          rw [flatMap_group hclose h.char] at hskip ⊢
          simp only [List.map_cons]
          rw [scanFrom_span (by decide) hskip, ih htail hclosed, cuts_span rfl, htoken]

theorem scan_tokens {glyphs : List Glyph} (h : WritesLiterals write glyphs)
    (hclosed : unclosedText (Delimiter.parenthesis.cut (glyphs.map Glyph.sign)) = none) :
    scan (glyphs.flatMap write) = cuts 0 '\x00' (tokens write glyphs) :=
  scanFrom_tokens h hclosed 0 '\x00'

end Written

/-! ## Splitting part by part -/

/-- **A text is split at the glyphs that are the mark.** -/
theorem splitOn_glyphs {mark : Char} (hmark : isSpelling mark = false) {glyphs : List Glyph}
    (h : Clean glyphs) :
    splitOn mark (render glyphs) = (glyphs.splitOnP (· = .char mark)).map render := by
  induction glyphs with
  | nil => rfl
  | cons glyph glyphs ih =>
    obtain ⟨hg, hrest⟩ := clean_cons.mp h
    rw [List.splitOnP_cons_eq_if_modifyHead, render_cons]
    by_cases hglyph : glyph = .char mark
    · rw [if_pos (by simpa using hglyph), hglyph, Glyph.text, List.singleton_append, splitOn, if_pos rfl,
        ih hrest]
      rfl
    · have hnot : mark ∉ glyph.text := by
        intro hmem
        cases glyph with
        | char c => exact hglyph (by rw [List.mem_singleton.mp hmem])
        | name tag n => exact notMem_spelled hmark hg n hmem
      rw [if_neg (by simpa using hglyph), splitOn_append hnot, ih hrest]
      cases glyphs.splitOnP (· = .char mark) <;> rfl

/-- Parts split at semicolons, and behind every span. -/
def splitParts : List Part → List (List Glyph)
  | [] => [[]]
  | .glyph single :: parts =>
    if single = .char ';' then [] :: splitParts parts
    else (splitParts parts).modifyHead (single :: ·)
  | .span glyphs :: parts => glyphs :: splitParts parts

/-- Hiding the spans with a semicolon behind each, splitting at semicolons and filling in splits the
parts. -/
theorem splitOnP_concealed {tag : List Char} {parts : List Part}
    (h : ∀ n, .glyph (.name tag n) ∉ parts) (done : List (List Glyph)) :
    ((concealed tag [';'] done.length parts).splitOnP (· = .char ';')).map
        (List.flatMap (unfolded tag (done ++ hiddenIn parts))) = splitParts parts := by
  induction parts generalizing done with
  | nil => rfl
  | cons part parts ih =>
    have hrest : ∀ n, .glyph (.name tag n) ∉ parts := fun n hn => h n (List.mem_cons_of_mem _ hn)
    cases part with
    | glyph single =>
      have hnext := ih hrest done
      rw [concealed, List.splitOnP_cons_eq_if_modifyHead, splitParts, hiddenIn, ← hnext]
      by_cases hsingle : single = .char ';'
      · rw [if_pos (by simpa using hsingle), if_pos hsingle]
        rfl
      · have hself : unfolded tag (done ++ hiddenIn parts) single = [single] := by
          cases single with
          | char c => rfl
          | name t n =>
            have ht : t ≠ tag := by
              rintro rfl
              exact h n List.mem_cons_self
            rw [unfolded, if_neg ht]
        rw [if_neg (by simpa using hsingle), if_neg hsingle]
        cases (concealed tag [';'] done.length parts).splitOnP (· = .char ';') with
        | nil => rfl
        | cons first others => simp [hself]
    | span glyphs =>
      have hnext := ih hrest (done ++ [glyphs])
      rw [List.length_append, List.length_singleton, List.append_assoc, List.singleton_append] at hnext
      have hname : (decide (Glyph.name tag done.length = .char ';')) = false := by simp
      simp only [concealed, List.map_cons, List.map_nil, List.singleton_append,
        List.splitOnP_cons_eq_if_modifyHead, hname, Bool.false_eq_true, if_false, hiddenIn, splitParts]
      rw [← hnext]
      simp [unfolded]

/-- **Statements are the parts at blocks, split.** -/
theorem statements_parts {glyphs : List Glyph} {skip : Nat}
    (h : unclosedText (cutFrom Delimiter.brace.look skip (glyphs.map Glyph.sign)) = none)
    (previous : Char) :
    statements Glyph.sign 0 previous (glyphs.drop skip) =
      splitParts (Delimiter.brace.partsFrom skip glyphs) := by
  induction glyphs generalizing skip previous with
  | nil => cases skip <;> rfl
  | cons glyph glyphs ih =>
    cases skip with
    | succ skip => exact ih h previous
    | zero =>
      rw [List.map_cons, cutFrom] at h
      rw [List.drop_zero, Delimiter.partsFrom]
      cases hlook : Delimiter.brace.look glyph.sign (glyphs.map Glyph.sign) with
      | unclosed => simp [hlook, unclosedText] at h
      | plain =>
        simp only [hlook, unclosedText] at h
        have hnext := fun previous => ih h previous
        simp only [List.drop_zero] at hnext
        have hopen : glyph.sign ≠ '\x7b' := look_eq_plain.mp hlook
        have hmark : glyph.sign = ';' ↔ glyph = .char ';' := by
          cases glyph with
          | char c => simp [Glyph.sign]
          | name tag n => simp [Glyph.sign]
        rw [splitParts]
        split
        · next hchar => rw [statements_mark (hmark.mpr hchar), hnext]
        · next hchar =>
          rw [statements_plain (fun hsign => hchar (hmark.mp hsign)) hopen, hnext]
      | span more =>
        obtain ⟨hopen, n, hn, rfl⟩ := close_of_look hlook
        simp only [hlook, unclosedText] at h
        rw [statements_block hopen hn, ih h]
        rfl

theorem mem_of_splitOnP {α : Type} {p : α → Bool} {xs part : List α} {x : α}
    (hpart : part ∈ xs.splitOnP p) (hx : x ∈ part) : x ∈ xs := by
  induction xs generalizing part with
  | nil =>
    obtain rfl : part = [] := by simpa using hpart
    cases hx
  | cons y xs ih =>
    rw [List.splitOnP_cons_eq_if_modifyHead] at hpart
    split at hpart
    · rcases List.mem_cons.mp hpart with rfl | hpart
      · cases hx
      · exact List.mem_cons_of_mem y (ih hpart hx)
    · obtain ⟨first, others, heq⟩ := List.exists_cons_of_ne_nil (List.splitOnP_ne_nil p xs)
      rw [heq] at hpart ih
      rcases List.mem_cons.mp hpart with rfl | hpart
      · rcases List.mem_cons.mp hx with rfl | hx
        · exact List.mem_cons_self
        · exact List.mem_cons_of_mem y (ih List.mem_cons_self hx)
      · exact List.mem_cons_of_mem y (ih (List.mem_cons_of_mem first hpart) hx)

/-- What is made of the glyphs that hiding writes: something of each glyph outside the spans, and
something of each name for its span. -/
theorem map_concealed {β : Type} {tag : List Char} {parts : List Part} {index : Nat}
    {ofGlyph : Glyph → β} {ofPart : Part → β}
    (hglyph : ∀ glyph, .glyph glyph ∈ parts → ofGlyph glyph = ofPart (.glyph glyph))
    (hspan : ∀ k span, (hiddenIn parts)[k]? = some span →
      ofGlyph (.name tag (index + k)) = ofPart (.span span)) :
    (concealed tag [] index parts).map ofGlyph = parts.map ofPart := by
  induction parts generalizing index with
  | nil => rfl
  | cons part parts ih =>
    have hrest : ∀ glyph, .glyph glyph ∈ parts → ofGlyph glyph = ofPart (.glyph glyph) :=
      fun glyph hmem => hglyph glyph (List.mem_cons_of_mem _ hmem)
    cases part with
    | glyph single =>
      rw [concealed, List.map_cons, List.map_cons, ih hrest hspan, hglyph single List.mem_cons_self]
    | span glyphs =>
      have hfirst : ofGlyph (.name tag index) = ofPart (.span glyphs) := hspan 0 glyphs rfl
      have hnext : ∀ k span, (hiddenIn parts)[k]? = some span →
          ofGlyph (.name tag (index + 1 + k)) = ofPart (.span span) := by
        intro k span hk
        rw [Nat.add_assoc, Nat.add_comm 1 k]
        exact hspan (k + 1) span hk
      rw [concealed, List.map_cons, List.map_nil, List.nil_append, List.map_cons, ih hrest hnext, hfirst]

/-! ## From the skeleton to the fragments -/

/-- The groups of a skeleton, with the names of its literals between them. -/
def groupsOf (bones : List Char) : List Part := Delimiter.parenthesis.parts (withNames 0 bones)

/-- A skeleton with its groups hidden. -/
def grouped (bones : List Char) : List Glyph := concealed paramsTag [] 0 (groupsOf bones)

/-- The blocks of a skeleton with its groups hidden. -/
def blocksOf (bones : List Char) : List Part := Delimiter.brace.parts (grouped bones)

/-- A skeleton with its groups and blocks hidden, and a semicolon behind each block. -/
def flattened (bones : List Char) : List Glyph := concealed blockTag [';'] 0 (blocksOf bones)

/-- The tokens of a skeleton with literals. -/
def tokensOf (bones : List Char) (texts : List (List Char)) : List Token :=
  tokens (Placeholders.fill ⟨literalTag, texts⟩) (withNames 0 bones)

/-- The text of a glyph, when groups and literals are hidden. -/
def shown (params spans : List (List Glyph)) (glyph : Glyph) : List Char :=
  render ((unfolded paramsTag params glyph).flatMap (unfolded literalTag spans))

/-- The parts of a text that are not blank, without the blanks around them. -/
def trimmed (parts : List (List Char)) : List (List Char) :=
  (parts.map trim).filter fun part => !part.isEmpty

section Split
variable {bones : List Char} {texts : List (List Char)}

theorem closed_groups (h : unclosedText (Delimiter.parenthesis.cut bones) = none) :
    unclosedText (Delimiter.parenthesis.cut ((withNames 0 bones).map Glyph.sign)) = none := by
  rwa [signs_withNames]

theorem signs_groupsOf (h : unclosedText (Delimiter.parenthesis.cut bones) = none) :
    (groupsOf bones).map Part.sign = (Delimiter.parenthesis.cut bones).map Piece.sign := by
  rw [groupsOf, ← signs_parts (closed_groups h), signs_withNames]

/-- The names in a skeleton with its groups hidden are those of literals and of groups. -/
theorem mem_grouped {tag : List Char} {n : Nat} (h : .name tag n ∈ grouped bones) :
    tag = literalTag ∨ tag = paramsTag := by
  rcases mem_concealed h with hglyph | ⟨c, -, hchar⟩ | ⟨m, -, hname⟩
  · have hin := mem_parts hglyph
    rw [groupsOf, glyphs_parts] at hin
    rcases mem_withNames hin with ⟨c, -, -, hchar⟩ | ⟨m, -, hname⟩
    · cases hchar
    · exact Or.inl (Glyph.name.inj hname).1
  · cases hchar
  · exact Or.inr (Glyph.name.inj hname).1

/-- With its groups hidden, a skeleton has the signs of its pieces. -/
theorem signs_grouped (h : unclosedText (Delimiter.parenthesis.cut bones) = none) :
    (grouped bones).map Glyph.sign = (Delimiter.parenthesis.cut bones).map Piece.sign := by
  rw [grouped, signs_concealed, signs_groupsOf h]

theorem map_render_chars (texts : List (List Char)) :
    (texts.map (List.map Glyph.char)).map render = texts := by
  rw [List.map_map]
  exact List.map_id'' render_map_char texts

/-- A skeleton with its groups hidden has the tokens of the skeleton, once the groups and the literals
in them are put back. -/
theorem tokens_grouped :
    (grouped bones).map (fun glyph => (⟨glyph.sign,
      shown (hiddenIn (groupsOf bones)) (texts.map (List.map .char)) glyph⟩ : Token)) =
      tokensOf bones texts := by
  have hfill : ∀ glyphs : List Glyph,
      render (glyphs.flatMap (unfolded literalTag (texts.map (List.map .char)))) =
        glyphs.flatMap (Placeholders.fill ⟨literalTag, texts⟩) := by
    intro glyphs
    rw [render, List.flatMap_assoc]
    congr 1
    funext glyph
    rw [← render, ← fill_eq_unfolded, map_render_chars]
  apply map_concealed
  · intro glyph hmem
    have hself : unfolded paramsTag (hiddenIn (groupsOf bones)) glyph = [glyph] := by
      have hin := mem_parts hmem
      rw [groupsOf, glyphs_parts] at hin
      rcases mem_withNames hin with ⟨c, -, -, rfl⟩ | ⟨n, -, rfl⟩
      · rfl
      · have htag : literalTag ≠ paramsTag := by decide
        rw [unfolded, if_neg htag]
    rw [shown, hself, hfill]
    rfl
  · intro k span hk
    rw [shown, unfolded, if_pos rfl, Nat.zero_add, hk, Option.getD_some, hfill]
    rfl

/-- The statements among the tokens are those of the skeleton with its groups hidden. -/
theorem cuts_tokensOf :
    cuts 0 '\x00' (tokensOf bones texts) = (statements Glyph.sign 0 '\x00' (grouped bones)).map
      (List.flatMap (shown (hiddenIn (groupsOf bones)) (texts.map (List.map .char)))) := by
  rw [← tokens_grouped, cuts, statements_map, List.map_map]
  congr 1
  funext statement
  simp [List.flatMap_map]

/-- With its blocks put back, the split text has the statements of the skeleton. -/
theorem statements_flattened (h : Balanced bones) :
    ((flattened bones).splitOnP (· = .char ';')).map
        (List.flatMap (unfolded blockTag (hiddenIn (blocksOf bones)))) =
      statements Glyph.sign 0 '\x00' (grouped bones) := by
  have hfree : ∀ n, .glyph (.name blockTag n) ∉ blocksOf bones := by
    intro n hn
    have hmem := mem_parts hn
    rw [blocksOf, glyphs_parts] at hmem
    rcases mem_grouped hmem with htag | htag
    · exact absurd htag (by decide)
    · exact absurd htag (by decide)
  have hclosed : unclosedText (Delimiter.brace.cut ((grouped bones).map Glyph.sign)) = none := by
    rw [signs_grouped h.groups]
    exact h.blocks
  exact (splitOnP_concealed hfree []).trans (statements_parts hclosed '\x00').symm

variable (hcaret : '^' ∉ bones)

include hcaret

theorem clean_groups : Clean ((groupsOf bones).flatMap Part.glyphs) := by
  rw [groupsOf, glyphs_parts]
  exact clean_withNames hcaret 0

theorem clean_grouped : Clean (grouped bones) :=
  clean_concealed (show IsTag paramsTag by decide) (by simp) 0 (clean_groups hcaret)

theorem clean_blocks : Clean ((blocksOf bones).flatMap Part.glyphs) := by
  rw [blocksOf, glyphs_parts]
  exact clean_grouped hcaret

theorem clean_flattened : Clean (flattened bones) :=
  clean_concealed (show IsTag blockTag by decide) (by decide) 0 (clean_blocks hcaret)

theorem hide_groups (h : unclosedText (Delimiter.parenthesis.cut bones) = none) :
    hide .parenthesis {} (render (withNames 0 bones)) (.tagged "params") =
      .ok (render (grouped bones), ⟨paramsTag, (hiddenIn (groupsOf bones)).map render⟩) := by
  exact hide_render bare_parenthesis (clean_withNames hcaret 0) (closed_groups h) _ _

theorem hide_blocks (h : Balanced bones) :
    hide .brace { suffix := [';'] } (render (grouped bones)) (.tagged "subscript") =
      .ok (render (flattened bones), ⟨blockTag, (hiddenIn (blocksOf bones)).map render⟩) := by
  apply hide_render bare_brace (clean_grouped hcaret)
  rw [signs_grouped h.groups]
  exact h.blocks

/-- Putting blocks, groups and literals back in a segment shows its glyphs. -/
theorem restore_segment {segment : List Glyph}
    (h : segment ∈ (flattened bones).splitOnP (· = .char ';')) (texts : List (List Char)) :
    Placeholders.restore ⟨literalTag, texts⟩
      (Placeholders.restore ⟨paramsTag, (hiddenIn (groupsOf bones)).map render⟩
        (Placeholders.restore ⟨blockTag, (hiddenIn (blocksOf bones)).map render⟩ (render segment))) =
      (segment.flatMap (unfolded blockTag (hiddenIn (blocksOf bones)))).flatMap
        (shown (hiddenIn (groupsOf bones)) (texts.map (List.map .char))) := by
  have hclean : Clean segment := fun glyph hglyph =>
    clean_flattened hcaret _ (mem_of_splitOnP h hglyph)
  rw [← map_render_chars texts, restore_putBack (clean_hiddenIn (clean_blocks hcaret))
    (clean_hiddenIn (clean_groups hcaret)) hclean, flatMap_putBack,
    List.flatMap_assoc (f := unfolded paramsTag _), map_render_chars]
  exact List.flatMap_assoc

/-- **Splitting succeeds on balanced skeletons only.** -/
theorem balanced_of_split {prepared : Prepared}
    (h : split ⟨render (withNames 0 bones), ⟨literalTag, texts⟩⟩ = .ok prepared) : Balanced bones := by
  obtain ⟨hidden₁, hhide₁, h⟩ := bind_eq_ok h
  obtain ⟨hidden₂, hhide₂, -⟩ := bind_eq_ok h
  have hgroups := closed_of_hide bare_parenthesis (clean_withNames hcaret 0) hhide₁
  rw [signs_withNames] at hgroups
  obtain rfl : _ = hidden₁ := Except.ok.inj ((hide_groups hcaret hgroups).symm.trans hhide₁)
  have hblocks := closed_of_hide bare_brace (clean_grouped hcaret) hhide₂
  rw [signs_grouped hgroups] at hblocks
  exact ⟨hgroups, hblocks⟩

/-- **Splitting cuts a balanced skeleton at its statements.** -/
theorem split_eq (h : Balanced bones) :
    split ⟨render (withNames 0 bones), ⟨literalTag, texts⟩⟩ =
      .ok ⟨render (flattened bones), trimmed (cuts 0 '\x00' (tokensOf bones texts))⟩ := by
  have hmark : isSpelling ';' = false := by decide
  have hparts : (splitOn ';' (render (flattened bones))).map (fun part =>
      trim (Placeholders.restore ⟨literalTag, texts⟩
        (Placeholders.restore ⟨paramsTag, (hiddenIn (groupsOf bones)).map render⟩
          (Placeholders.restore ⟨blockTag, (hiddenIn (blocksOf bones)).map render⟩ part)))) =
      (cuts 0 '\x00' (tokensOf bones texts)).map trim := by
    rw [splitOn_glyphs hmark (clean_flattened hcaret), cuts_tokensOf, ← statements_flattened h,
      List.map_map, List.map_map, List.map_map]
    apply List.map_congr_left
    intro segment hsegment
    exact congrArg trim (restore_segment hcaret hsegment texts)
  simp only [split, hide_groups hcaret h.groups, bind, Except.bind, hide_blocks hcaret h, hparts]
  rfl

end Split

/-- Names stand for literals, where there is one for each. -/
theorem writesLiterals_withNames {bones : List Char} {texts : List (List Char)}
    (hcount : bones.count '"' ≤ texts.length) (h : ∀ text ∈ texts, IsLiteral text) :
    WritesLiterals (Placeholders.fill ⟨literalTag, texts⟩) (withNames 0 bones) where
  char c := rfl
  plain c hmem := by
    rcases mem_withNames hmem with ⟨d, -, hne, hchar⟩ | ⟨n, -, hname⟩
    · cases hchar
      exact hne
    · cases hname
  name tag n hmem := by
    rcases mem_withNames hmem with ⟨d, -, -, hchar⟩ | ⟨m, hm, hname⟩
    · cases hchar
    · cases hname
      have hn : n < texts.length := by omega
      rw [Placeholders.fill, if_pos rfl, List.getElem?_eq_getElem hn, Option.getD_some]
      exact h _ (List.getElem_mem hn)

/-- The text that a source is laid out to, with its literals put back. -/
def laidText (source : List Char) : List Char :=
  fillIn (layout (skeleton (stripComments source))) (literals (stripComments source))

section Fragments
variable {source : List Char} (h : IsPlain source)

include h

theorem caret_layout : '^' ∉ layout (skeleton (stripComments source)) :=
  notMem_layout (by decide) (caret_skeleton h)

theorem count_laid (hclosed : LiteralsClosed (stripComments source)) :
    (layout (skeleton (stripComments source))).count '"' = (literals (stripComments source)).length := by
  rw [count_layout (caret_skeleton h), count_skeleton hclosed]

/-- **A plain source has fragments just if its literals are closed and its skeleton is balanced**, and
they are the statements among its tokens. -/
theorem fragments_eq (hclosed : LiteralsClosed (stripComments source))
    (hbalanced : Balanced (layout (skeleton (stripComments source)))) :
    fragments source = .ok (trimmed (cuts 0 '\x00'
      (tokensOf (layout (skeleton (stripComments source))) (literals (stripComments source))))) := by
  rw [fragments, prepare, layOut_eq h hclosed]
  simp only [bind, Except.bind, split_eq (caret_layout h) hbalanced]
  rfl

theorem balanced_of_fragments {pieces : List (List Char)} (hok : fragments source = .ok pieces) :
    LiteralsClosed (stripComments source) ∧ Balanced (layout (skeleton (stripComments source))) := by
  obtain ⟨prepared, hprepare, -⟩ := bind_eq_ok hok
  obtain ⟨laid, hlaid, hsplit⟩ := bind_eq_ok hprepare
  have hclosed := closed_of_layOut h hlaid
  obtain rfl : _ = laid := Except.ok.inj ((layOut_eq h hclosed).symm.trans hlaid)
  exact ⟨hclosed, balanced_of_split (caret_layout h) hsplit⟩

/-- The scan of the text that a source is laid out to takes the tokens of the source. -/
theorem scan_laidText (hclosed : LiteralsClosed (stripComments source))
    (hgroups : unclosedText (Delimiter.parenthesis.cut (layout (skeleton (stripComments source)))) =
      none) :
    scan (laidText source) = cuts 0 '\x00'
      (tokensOf (layout (skeleton (stripComments source))) (literals (stripComments source))) := by
  have hcount := count_laid h hclosed
  have hfill := fill_withNames (Nat.le_of_eq hcount) []
  have hwrites := writesLiterals_withNames (Nat.le_of_eq hcount) fun literal => isLiteral_of_mem
  rw [laidText, ← hfill]
  apply scan_tokens hwrites
  rw [signs_withNames]
  exact hgroups

/-- **The fragments of a source come from one scan.** Where a plain source has fragments, they are the
parts of the scan of its laid-out text that are not blank, trimmed, and the scan loses nothing: its
parts, with the semicolons at which it cuts, are that text. -/
theorem fragments_scanned {pieces : List (List Char)} (hok : fragments source = .ok pieces) :
    ∃ laid, layOut source = .ok laid ∧
      pieces = ((scan (laid.literals.restore laid.text)).map trim).filter (fun part => !part.isEmpty) ∧
      ∃ marks : List (List Char), marks.length = (scan (laid.literals.restore laid.text)).length ∧
        (∀ mark ∈ marks, mark = [] ∨ mark = [';']) ∧
        (List.zipWith (· ++ ·) (scan (laid.literals.restore laid.text)) marks).flatten =
          laid.literals.restore laid.text := by
  obtain ⟨hclosed, hbalanced⟩ := balanced_of_fragments h hok
  have hlaid := layOut_eq h hclosed
  have hpieces : pieces = trimmed (scan (laidText source)) := by
    rw [scan_laidText h hclosed hbalanced.groups]
    exact Except.ok.inj (hok.symm.trans (fragments_eq h hclosed hbalanced))
  have htext : Placeholders.restore ⟨literalTag, literals (stripComments source)⟩
      (render (withNames 0 (layout (skeleton (stripComments source))))) = laidText source :=
    restore_withNames (caret_layout h) (Nat.le_of_eq (count_laid h hclosed))
  refine ⟨⟨_, _⟩, hlaid, ?_⟩
  simp only [htext]
  exact ⟨hpieces, scan_lossless (laidText source)⟩

end Fragments

/-- A source in which delimiters cross: a literal and a group hold semicolons and closers, a brace in
a block is behind a backslash, another is met outside blocks, and an `else` has no condition. -/
def crossing : List Char :=
  "if(a)\x7b b(\"\x7d;)\"); \\\x7d c \x7d else \x7b d; \x7d \x7d e(f; g); h".toList

theorem fragments_scanned_crossing :
    IsPlain crossing ∧
    fragments crossing = .ok ["if(a)\x7b b(\"\x7d;)\"); \\\x7d c \x7d".toList,
      "else(1) \x7b d; \x7d".toList, "\x7d e(f; g)".toList, "h".toList] ∧
    ∃ laid, layOut crossing = .ok laid ∧
      ["if(a)\x7b b(\"\x7d;)\"); \\\x7d c \x7d".toList, "else(1) \x7b d; \x7d".toList,
        "\x7d e(f; g)".toList, "h".toList] =
        ((scan (laid.literals.restore laid.text)).map trim).filter (fun part => !part.isEmpty) ∧
      ∃ marks : List (List Char), marks.length = (scan (laid.literals.restore laid.text)).length ∧
        (∀ mark ∈ marks, mark = [] ∨ mark = [';']) ∧
        (List.zipWith (· ++ ·) (scan (laid.literals.restore laid.text)) marks).flatten =
          laid.literals.restore laid.text := by
  have hplain : IsPlain crossing := by decide +kernel
  have hok : fragments crossing = .ok ["if(a)\x7b b(\"\x7d;)\"); \\\x7d c \x7d".toList,
      "else(1) \x7b d; \x7d".toList, "\x7d e(f; g)".toList, "h".toList] := by cbv
  exact ⟨hplain, hok, fragments_scanned hplain hok⟩

end Cutscene.Source
