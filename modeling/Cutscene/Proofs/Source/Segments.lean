import Cutscene.Proofs.Source.Sequence

/-!
Sources cut into code, string literals and comments.

`Segmented segments` says that segments follow one another as those of a source do: a literal ends at
its first quote that is not right behind a backslash, a comment begins at two slashes in the code and
ends before the next line break, and what begins neither is a plain character. The rules look at the
text of the segments and not at the state of a reader. Every text is cut in just one way
(`exists_segments`, `Segmented.unique`).

Taking comments out of a source is deleting the segments that are comments
(`dropComments_written`). What is left is cut into the others, so nothing is left to take out
(`dropComments_dropComments`), also with the blanks around it trimmed away, and two slashes that are
left stand in a literal (`isLiteral_of_slashes`).
-/
namespace Cutscene.Source

open Text

/-! ## Segments -/

/-- A part of a source. -/
inductive Segment where
  /-- A character outside literals and comments. -/
  | plain (c : Char)
  /-- A literal, with the text between its quotes. -/
  | literal (body : List Char)
  /-- A literal that is not closed, with the text behind its quote. -/
  | unclosed (body : List Char)
  /-- A comment, with the text behind its two slashes. -/
  | comment (body : List Char)
  deriving DecidableEq, Repr

namespace Segment

/-- The characters of a segment. -/
def text : Segment → List Char
  | plain c => [c]
  | literal body => '"' :: (body ++ ['"'])
  | unclosed body => '"' :: body
  | comment body => '/' :: '/' :: body

/-- Whether a segment is a literal. -/
def isLiteral : Segment → Bool
  | literal _ | unclosed _ => true
  | _ => false

/-- Whether a segment is a comment. -/
def isComment : Segment → Bool
  | comment _ => true
  | _ => false

/-- Segments written one after the other. -/
def written (segments : List Segment) : List Char := segments.flatMap text

/-- Segments without the comments among them. -/
def withoutComments (segments : List Segment) : List Segment :=
  segments.filter fun segment => !segment.isComment

/-- The segment to which the character at a position belongs. -/
def at? : List Segment → Nat → Option Segment
  | [], _ => none
  | segment :: rest, n =>
    if n < segment.text.length then some segment else at? rest (n - segment.text.length)

@[simp] theorem written_nil : written [] = [] := rfl

theorem written_cons (segment : Segment) (rest : List Segment) :
    written (segment :: rest) = segment.text ++ written rest := rfl

section Written
variable (c : Char) (body : List Char) (rest : List Segment)

@[simp] theorem written_plain : written (plain c :: rest) = c :: written rest := rfl

@[simp] theorem written_literal :
    written (literal body :: rest) = '"' :: (body ++ '"' :: written rest) := by
  simp [written_cons, text]

@[simp] theorem written_unclosed :
    written (unclosed body :: rest) = '"' :: (body ++ written rest) := rfl

@[simp] theorem written_comment :
    written (comment body :: rest) = '/' :: '/' :: (body ++ written rest) := rfl

theorem withoutComments_cons (segment : Segment) : withoutComments (segment :: rest) =
    if segment.isComment then withoutComments rest else segment :: withoutComments rest := by
  cases segment <;> rfl

end Written

theorem text_ne_nil (segment : Segment) : segment.text ≠ [] := by
  cases segment <;> exact List.cons_ne_nil _ _

end Segment

open Segment (written withoutComments)

/-- Every quote in a text is right behind a backslash. -/
def Escaped (body : List Char) : Prop :=
  ∀ before after, body = before ++ '"' :: after → before.getLast? = some '\\'

/-- Segments that follow one another as those of a source do. -/
inductive Segmented : List Segment → Prop where
  | nil : Segmented []
  /-- A plain character begins neither a literal nor a comment. -/
  | plain {c : Char} {rest : List Segment} (hquote : c ≠ '"')
      (hslashes : ¬ ['/', '/'] <+: c :: written rest) (h : Segmented rest) :
      Segmented (.plain c :: rest)
  /-- The quote that ends a literal is its first one that is not right behind a backslash. -/
  | literal {body : List Char} {rest : List Segment} (hbody : Escaped body)
      (hend : body.getLast? ≠ some '\\') (h : Segmented rest) : Segmented (.literal body :: rest)
  | unclosed {body : List Char} (hbody : Escaped body) : Segmented [.unclosed body]
  /-- A comment reaches up to the next line break, which is not part of it. -/
  | comment {body : List Char} {rest : List Segment} (hbody : '\n' ∉ body)
      (hend : ∀ c ∈ (written rest).head?, c = '\n') (h : Segmented rest) :
      Segmented (.comment body :: rest)

/-! ## Every text is cut -/

/-- A text with a quote that is not escaped has a first one. -/
theorem exists_first_quote {text : List Char} (h : ¬ Escaped text) :
    ∃ body rest, text = body ++ '"' :: rest ∧ Escaped body ∧ body.getLast? ≠ some '\\' := by
  obtain ⟨before, after, heq, hlast⟩ :
      ∃ before after, text = before ++ '"' :: after ∧ before.getLast? ≠ some '\\' := by
    simpa [Escaped] using h
  clear h
  induction hlength : before.length using Nat.strong_induction_on generalizing before after with
  | _ n ih =>
    by_cases hescaped : Escaped before
    · exact ⟨before, after, heq, hescaped, hlast⟩
    · -- an earlier quote ends the literal
      obtain ⟨first, more, hbefore, hfirst⟩ :
          ∃ first more, before = first ++ '"' :: more ∧ first.getLast? ≠ some '\\' := by
        simpa [Escaped] using hescaped
      have hshorter : first.length < n := by
        have := congrArg List.length hbefore
        simp only [List.length_append, List.length_cons] at this
        omega
      refine ih first.length hshorter first (more ++ '"' :: after) ?_ hfirst rfl
      rw [heq, hbefore]
      simp

theorem exists_segments (source : List Char) :
    ∃ segments, Segmented segments ∧ written segments = source := by
  induction hlength : source.length using Nat.strong_induction_on generalizing source with
  | _ n ih =>
    cases source with
    | nil => exact ⟨[], .nil, rfl⟩
    | cons c text =>
      rw [List.length_cons] at hlength
      by_cases hquote : c = '"'
      · subst hquote
        by_cases hescaped : Escaped text
        · exact ⟨[.unclosed text], .unclosed hescaped, by simp⟩
        · obtain ⟨body, rest, rfl, hbody, hend⟩ := exists_first_quote hescaped
          rw [List.length_append, List.length_cons] at hlength
          obtain ⟨segments, hsegments, rfl⟩ := ih rest.length (by omega) rest rfl
          exact ⟨.literal body :: segments, .literal hbody hend hsegments, by simp⟩
      · by_cases hslashes : ['/', '/'] <+: c :: text
        · obtain ⟨rest, hrest⟩ := hslashes
          obtain ⟨rfl, rfl⟩ : '/' = c ∧ '/' :: rest = text := by simpa using hrest
          rw [List.length_cons] at hlength
          -- the comment goes on for as long as there is no line break
          have hle : (rest.dropWhile (· ≠ '\n')).length ≤ rest.length := by
            exact (List.dropWhile_suffix _).length_le
          obtain ⟨segments, hsegments, hwritten⟩ := ih _ (by omega) (rest.dropWhile (· ≠ '\n')) rfl
          refine ⟨.comment (rest.takeWhile (· ≠ '\n')) :: segments, .comment ?_ ?_ hsegments, ?_⟩
          · intro hmem
            have := List.mem_takeWhile_imp hmem
            simp at this
          · intro d hd
            rw [hwritten] at hd
            have hstop := List.head?_dropWhile_not (· ≠ '\n') rest
            rw [Option.mem_def.mp hd] at hstop
            simpa using hstop
          · rw [Segment.written_comment, hwritten, List.takeWhile_append_dropWhile]
        · obtain ⟨segments, hsegments, rfl⟩ := ih text.length (by omega) text rfl
          exact ⟨.plain c :: segments, .plain hquote hslashes hsegments, rfl⟩

/-! ## Every text is cut in one way -/

/-- Of two quotes that end a literal neither is before the other. -/
theorem closed_inj {body other rest more : List Char} (hbody : Escaped body)
    (hend : body.getLast? ≠ some '\\') (hother : Escaped other) (hlast : other.getLast? ≠ some '\\')
    (heq : body ++ '"' :: rest = other ++ '"' :: more) : body = other ∧ rest = more := by
  rcases List.append_eq_append_iff.mp heq with ⟨mid, hmid, hrest⟩ | ⟨mid, hmid, hrest⟩
  · cases mid with
    | nil => simp_all
    | cons c mid =>
      obtain ⟨rfl, -⟩ := List.cons.inj hrest
      exact absurd (hother body mid hmid) hend
  · cases mid with
    | nil => simp_all
    | cons c mid =>
      obtain ⟨rfl, -⟩ := List.cons.inj hrest
      exact absurd (hbody other mid hmid) hlast

/-- A comment is what stands before the next line break. -/
theorem takeWhile_comment {body rest : List Char} (hbody : '\n' ∉ body)
    (hend : ∀ c ∈ rest.head?, c = '\n') : (body ++ rest).takeWhile (· ≠ '\n') = body := by
  have hline : ∀ c ∈ body, decide (c ≠ '\n') = true := by
    intro c hc
    simp only [decide_eq_true_eq]
    rintro rfl
    exact hbody hc
  rw [List.takeWhile_append_of_pos hline]
  cases rest with
  | nil => simp
  | cons c rest =>
    obtain rfl : c = '\n' := hend c rfl
    simp

/-- **A text is cut in one way.** The induction is on the first cut: the character at the front says
which segment begins there, and the rules for literals and comments say where it ends. -/
theorem Segmented.unique {segments others : List Segment} (h : Segmented segments)
    (hothers : Segmented others) (heq : written segments = written others) : segments = others := by
  induction h generalizing others with
  | nil =>
    cases hothers with
    | nil => rfl
    | _ => simp at heq
  | @plain c rest hquote hslashes _ ih =>
    cases hothers with
    | plain hquote' hslashes' hrest =>
      obtain ⟨rfl, htext⟩ := List.cons.inj heq
      rw [ih hrest htext]
    | comment hbody hend hrest =>
      rw [Segment.written_plain, Segment.written_comment] at heq
      rw [heq] at hslashes
      exact absurd (List.prefix_append ['/', '/'] _) hslashes
    | _ => simp [hquote] at heq
  | @literal body rest hbody hend _ ih =>
    cases hothers with
    | @literal other more hother hlast hmore =>
      have htext : body ++ '"' :: written rest = other ++ '"' :: written more := by simpa using heq
      obtain ⟨rfl, hwritten⟩ := closed_inj hbody hend hother hlast htext
      rw [ih hmore hwritten]
    | @unclosed other hother =>
      have htext : other = body ++ '"' :: written rest := by simpa using heq.symm
      exact absurd (hother body _ htext) hend
    | plain hquote => simp [hquote.symm] at heq
    | nil => simp at heq
    | comment => simp at heq
  | @unclosed body hbody =>
    cases hothers with
    | @literal other more hother hlast hmore =>
      have htext : body = other ++ '"' :: written more := by simpa using heq
      exact absurd (hbody other _ htext) hlast
    | @unclosed other hother =>
      have htext : body = other := by simpa using heq
      rw [htext]
    | plain hquote => simp [hquote.symm] at heq
    | nil => simp at heq
    | comment => simp at heq
  | @comment body rest hbody hend _ ih =>
    cases hothers with
    | @plain c more hquote hslashes hmore =>
      rw [Segment.written_plain, Segment.written_comment] at heq
      rw [← heq] at hslashes
      exact absurd (List.prefix_append ['/', '/'] _) hslashes
    | @comment other more hother hlast hmore =>
      have htext : body ++ written rest = other ++ written more := by simpa using heq
      obtain rfl : body = other := by
        rw [← takeWhile_comment hbody hend, htext, takeWhile_comment hother hlast]
      rw [ih hmore (List.append_cancel_left htext)]
    | _ => simp at heq

/-! ## Comments are deleted -/

/-- A literal goes on behind a text whose quotes are escaped. -/
theorem dropComments_escaped (done : List Char) {body : List Char}
    (h : ∀ before after, body = before ++ '"' :: after → (done ++ before).getLast? = some '\\')
    (rest : List Char) :
    dropComments (.literal (done.getLast? = some '\\')) (body ++ rest) =
      body ++ dropComments (.literal ((done ++ body).getLast? = some '\\')) rest := by
  induction body generalizing done with
  | nil => simp
  | cons c body ih =>
    have hopen : ¬ (c = '"' && !decide (done.getLast? = some '\\')) = true := by
      simp only [Bool.and_eq_true, decide_eq_true_eq, Bool.not_eq_true', decide_eq_false_iff_not]
      rintro ⟨rfl, hlast⟩
      exact hlast (by simpa using h [] body rfl)
    have hrest := ih (done ++ [c]) fun before after heq => by
      simpa using h (c :: before) after (by rw [heq]; rfl)
    rw [List.cons_append, dropComments, if_neg hopen]
    simpa using hrest

theorem dropComments_line_end {body rest : List Char} (hbody : '\n' ∉ body)
    (hend : ∀ c ∈ rest.head?, c = '\n') :
    dropComments .comment (body ++ rest) = dropComments .code rest := by
  induction body with
  | nil =>
    cases rest with
    | nil => rfl
    | cons c rest =>
      obtain rfl : c = '\n' := hend c rfl
      rfl
  | cons c body ih =>
    have hc : c ≠ '\n' := fun heq => hbody (by simp [heq])
    have hmem : '\n' ∉ body := fun hmem => hbody (List.mem_cons_of_mem c hmem)
    rw [List.cons_append, dropComments, if_neg hc, ih hmem]

/-- **Taking comments out of a source deletes the segments that are comments.** -/
theorem dropComments_written {segments : List Segment} (h : Segmented segments) :
    dropComments .code (written segments) = written (withoutComments segments) := by
  induction h with
  | nil => rfl
  | @plain c rest hquote hslashes _ ih =>
    have hcode : ¬ (c = '/' && (written rest).head? = some '/') = true := by
      simp only [Bool.and_eq_true, decide_eq_true_eq]
      rintro ⟨rfl, hhead⟩
      obtain ⟨more, hmore⟩ := List.head?_eq_some_iff.mp hhead
      exact hslashes (by simp [hmore])
    show dropComments .code (c :: written rest) = c :: written (withoutComments rest)
    rw [dropComments, if_neg hcode, if_neg hquote, ih]
  | @literal body rest hbody hend _ ih =>
    have hclose : dropComments (.literal false) (body ++ '"' :: written rest) =
        body ++ '"' :: dropComments .code (written rest) := by
      have hstep := dropComments_escaped [] hbody ('"' :: written rest)
      simpa [dropComments, hend] using hstep
    simp [Segment.withoutComments_cons, Segment.isComment, dropComments, hclose, ih]
  | @unclosed body hbody =>
    have hopen : dropComments (.literal false) body = body := by
      have hstep := dropComments_escaped [] hbody []
      simpa [dropComments] using hstep
    simp [withoutComments, Segment.isComment, dropComments, hopen]
  | @comment body rest hbody hend _ ih =>
    have hskip := dropComments_line_end hbody hend
    simp [Segment.withoutComments_cons, Segment.isComment, dropComments, hskip, ih]

/-! ## Nothing is left to delete -/

/-- What is left of a text has no comments. A text that begins in a comment is left from the line break
that ends it, which is code. -/
theorem dropComments_dropComments (text : List Char) :
    (∀ region : Region, region ≠ .comment →
      dropComments region (dropComments region text) = dropComments region text) ∧
    dropComments .code (dropComments .comment text) = dropComments .comment text := by
  induction text with
  | nil =>
    refine ⟨fun region _ => ?_, rfl⟩
    cases region <;> rfl
  | cons c rest ih =>
    obtain ⟨hsame, hcomment⟩ := ih
    refine ⟨fun region hregion => ?_, ?_⟩
    · cases region with
      | comment => exact absurd rfl hregion
      | literal escaped =>
        rw [dropComments, dropComments, hsame]
        split <;> simp
      | code =>
        by_cases hslashes : (c = '/' && rest.head? = some '/') = true
        · rw [dropComments, if_pos hslashes, hcomment]
        · -- deleting brings no slash to the front of the rest
          have hfront : ¬ (c = '/' &&
              (dropComments (if c = '"' then .literal false else .code) rest).head? = some '/') =
                true := by
            simp only [Bool.and_eq_true, decide_eq_true_eq] at hslashes ⊢
            rintro ⟨hc, hhead⟩
            obtain ⟨more, hmore⟩ := List.head?_eq_some_iff.mp hhead
            have hfront : ['/'] <+: rest :=
              prefix_of_dropComments (by decide) (by rw [hmore]; exact List.prefix_append ['/'] more)
            obtain ⟨tail, rfl⟩ := hfront
            exact hslashes ⟨hc, rfl⟩
          rw [dropComments, if_neg hslashes, dropComments, if_neg hfront, hsame]
          split <;> simp
    · rw [dropComments]
      split
      · next hc =>
        rw [hc]
        exact congrArg ('\n' :: ·) (hsame .code (by simp))
      · exact hcomment

/-- The front part of a text that has no comments has none. -/
theorem dropComments_prefix {region : Region} {text front : List Char} (hstart : front <+: text)
    (h : dropComments region text = text) : dropComments region front = front := by
  induction text generalizing region front with
  | nil =>
    rw [List.prefix_nil.mp hstart]
    cases region <;> rfl
  | cons c rest ih =>
    cases front with
    | nil => cases region <;> rfl
    | cons d front =>
      obtain ⟨rfl, hfront⟩ := List.cons_prefix_cons.mp hstart
      -- a comment would have made the text shorter
      have hlonger : ∀ region, dropComments region rest ≠ d :: rest := by
        intro region heq
        have hle := (dropComments_sublist region rest).length_le
        rw [heq, List.length_cons] at hle
        omega
      cases region with
      | literal escaped =>
        rw [dropComments, List.cons.injEq] at h
        rw [dropComments, ih hfront h.2]
      | comment =>
        rw [dropComments] at h ⊢
        split
        · next hc =>
          rw [if_pos hc, List.cons.injEq] at h
          rw [ih hfront h.2]
        · next hc =>
          rw [if_neg hc] at h
          exact absurd h (hlonger _)
      | code =>
        rw [dropComments] at h ⊢
        have hcode : ¬ (d = '/' && rest.head? = some '/') = true := by
          intro hc
          rw [if_pos hc] at h
          exact hlonger _ h
        have hcode' : ¬ (d = '/' && front.head? = some '/') = true := by
          simp only [Bool.and_eq_true, decide_eq_true_eq] at hcode ⊢
          rintro ⟨hd, hhead⟩
          obtain ⟨more, rfl⟩ := List.head?_eq_some_iff.mp hhead
          obtain ⟨tail, rfl⟩ := hfront
          exact hcode ⟨hd, rfl⟩
        rw [if_neg hcode, List.cons.injEq] at h
        rw [if_neg hcode', ih hfront h.2]

/-- What is left of a source has no comments, also without the blanks around it. -/
theorem dropComments_stripComments (source : List Char) :
    dropComments .code (stripComments source) = stripComments source := by
  obtain ⟨before, behind, hbefore, -, heq⟩ := exists_blanks_trim (dropComments .code source)
  have hleft : dropComments .code (dropComments .code source) = dropComments .code source :=
    (dropComments_dropComments source).1 .code (by simp)
  have hslash : '/' ∉ before := notMem_blanks hbefore (by decide)
  have hquote : '"' ∉ before := notMem_blanks hbefore (by decide)
  rw [heq, dropComments_plain hslash hquote] at hleft
  exact dropComments_prefix (List.prefix_append _ behind) (List.append_cancel_left hleft)

/-! ## Slashes that are left -/

theorem length_withoutComments_le (segments : List Segment) :
    (written (withoutComments segments)).length ≤ (written segments).length := by
  induction segments with
  | nil => exact Nat.le_refl 0
  | cons segment rest ih =>
    rw [Segment.withoutComments_cons]
    split
    · rw [Segment.written_cons, List.length_append]
      omega
    · rw [Segment.written_cons, Segment.written_cons, List.length_append, List.length_append]
      omega

/-- Segments that are left as they are when comments are deleted have no comments among them. -/
theorem isComment_eq_false {segments : List Segment}
    (h : written (withoutComments segments) = written segments) :
    ∀ segment ∈ segments, segment.isComment = false := by
  induction segments with
  | nil => simp
  | cons segment rest ih =>
    rw [Segment.withoutComments_cons, Segment.written_cons] at h
    cases hcomment : segment.isComment with
    | true =>
      -- the comment would be missing
      rw [hcomment, if_pos rfl] at h
      have hle := length_withoutComments_le rest
      have hpos := List.length_pos_iff.mpr (Segment.text_ne_nil segment)
      rw [h, List.length_append] at hle
      omega
    | false =>
      rw [hcomment] at h
      have hrest := ih (List.append_cancel_left h)
      intro other hother
      rcases List.mem_cons.mp hother with rfl | hmem
      · exact hcomment
      · exact hrest other hmem

/-- Without comments, two slashes side by side stand in a literal. -/
theorem isLiteral_of_slashes {segments : List Segment} (h : Segmented segments)
    (hcomments : ∀ segment ∈ segments, segment.isComment = false) {n : Nat}
    (hslashes : ['/', '/'] <+: (written segments).drop n) :
    ∃ literal, Segment.at? segments n = some literal ∧ literal.isLiteral = true := by
  induction h generalizing n with
  | nil => simp at hslashes
  | @plain c rest hquote hplain _ ih =>
    cases n with
    | zero => exact absurd hslashes hplain
    | succ n => exact ih (fun segment hs => hcomments segment (by simp [hs])) hslashes
  | @literal body rest hbody hend _ ih =>
    rw [Segment.at?]
    split
    · exact ⟨_, rfl, rfl⟩
    · next hge =>
      have hdrop : (written (.literal body :: rest)).drop n =
          (written rest).drop (n - (Segment.literal body).text.length) := by
        rw [Segment.written_cons, List.drop_append, List.drop_eq_nil_of_le (Nat.le_of_not_lt hge),
          List.nil_append]
      rw [hdrop] at hslashes
      exact ih (fun segment hs => hcomments segment (by simp [hs])) hslashes
  | @unclosed body hbody =>
    rw [Segment.at?]
    split
    · exact ⟨_, rfl, rfl⟩
    · next hge =>
      have hlength : (written [.unclosed body]).length = (Segment.unclosed body).text.length := by
        simp [Segment.text]
      rw [List.drop_eq_nil_of_le (by omega)] at hslashes
      simp at hslashes
  | comment => simp [Segment.isComment] at hcomments

/-- **Comments are what is taken out of a source.** The source is cut in one way into plain characters,
literals and comments; without its comments, trimmed, it is what `stripComments` gives. Two slashes that
are left side by side stand in a literal of what is left, and there is nothing more to take out. -/
theorem stripComments_deletes (source : List Char) :
    (∃! segments, Segmented segments ∧ written segments = source) ∧
    (∀ segments, Segmented segments → written segments = source →
      stripComments source = trim (written (withoutComments segments))) ∧
    (∀ left, Segmented left → written left = stripComments source →
      ∀ n, ['/', '/'] <+: (stripComments source).drop n →
        ∃ literal, Segment.at? left n = some literal ∧ literal.isLiteral = true) ∧
    stripComments (stripComments source) = stripComments source := by
  refine ⟨?_, ?_, ?_, ?_⟩
  · obtain ⟨segments, hsegments, hwritten⟩ := exists_segments source
    refine ⟨segments, ⟨hsegments, hwritten⟩, ?_⟩
    rintro others ⟨hothers, heq⟩
    exact hothers.unique hsegments (heq.trans hwritten.symm)
  · rintro segments hsegments rfl
    rw [stripComments, dropComments_written hsegments]
  · intro left hleft hwritten n hslashes
    have hcomments : ∀ segment ∈ left, segment.isComment = false := by
      apply isComment_eq_false
      rw [← dropComments_written hleft, hwritten, dropComments_stripComments]
    rw [← hwritten] at hslashes
    exact isLiteral_of_slashes hleft hcomments hslashes
  · rw [stripComments, dropComments_stripComments, stripComments, trim_trim]

end Cutscene.Source
