import Mathlib
import Cutscene.Play.Value
import Cutscene.Proofs.Number.Shown

/-!
Texts that a session puts in quotes, read again by a condition.

A session gives a variable that is no number in single quotes, with a backslash before every single
quote of the text. A condition reads a backslash as the start of an escape wherever it stands, so
the text comes back just if it has no backslash of its own (`get_evaluates_iff`). That it comes back
without one is a matter of reading one literal (`readString_escaped`). For the other direction the
quotes are counted. Every literal loses the quote that opens it, and no operator makes new ones
(`quotes_eval`), so a text that is cut into several literals has too few quotes; and if it is read
as one, the backslash is missing (`readString_escaped_ne`).
-/
namespace Cutscene.Expr

open Text

/-- Whether a character opens a text literal. -/
def isQuote (c : Char) : Bool := c = '"' || c = '\''

/-- The number of quotes in a text. -/
def quotes (text : List Char) : Nat := text.countP isQuote

@[simp] theorem quotes_nil : quotes [] = 0 := rfl

@[simp] theorem quotes_cons (c : Char) (text : List Char) :
    quotes (c :: text) = (isQuote c).toNat + quotes text := by
  rw [quotes, List.countP_cons, Nat.add_comm]
  cases isQuote c <;> rfl

@[simp] theorem quotes_append (a b : List Char) : quotes (a ++ b) = quotes a + quotes b :=
  List.countP_append

theorem quotes_eq_zero {text : List Char} (hdouble : '"' ∉ text) (hsingle : '\'' ∉ text) :
    quotes text = 0 := by
  rw [quotes, List.countP_eq_zero]
  intro c hc hquote
  simp only [isQuote, Bool.or_eq_true, decide_eq_true_eq] at hquote
  rcases hquote with rfl | rfl
  · exact hdouble hc
  · exact hsingle hc

/-! ## Literals -/

theorem isQuote_unescape_le (c : Char) : (isQuote (unescape c)).toNat ≤ (isQuote c).toNat := by
  rw [unescape]
  split
  · exact Nat.zero_le _
  · split
    · exact Nat.zero_le _
    · exact Nat.le_refl _

/-- What is read and what is left have no more quotes than the text, and less if the literal is
closed. -/
theorem quotes_readString {quote : Char} (hquote : isQuote quote = true) (text : List Char) :
    quotes (readString quote text).text + quotes (readString quote text).rest +
      (readString quote text).closed.toNat ≤ quotes text := by
  fun_induction readString quote text with
  | case1 => simp
  | case2 => simp
  | case3 c rest ih =>
    have hescape := isQuote_unescape_le c
    simp only [Literal.push, quotes_cons]
    omega
  | case4 rest hend hescape =>
    simp [hquote, Nat.add_comm]
  | case5 c rest hend hescape hne ih =>
    simp only [Literal.push, quotes_cons]
    omega

/-- A literal that is not closed reaches to the end. -/
theorem closed_of_rest {quote : Char} {text : List Char} (h : (readString quote text).rest ≠ []) :
    (readString quote text).closed = true := by
  fun_induction readString quote text with
  | case1 => exact absurd rfl h
  | case2 => exact absurd rfl h
  | case3 c rest ih => exact ih h
  | case4 rest hend hescape => rfl
  | case5 c rest hend hescape hne ih => exact ih h

theorem rest_suffix (quote : Char) (text : List Char) : (readString quote text).rest <:+ text := by
  fun_induction readString quote text with
  | case1 => exact List.suffix_rfl
  | case2 => exact List.nil_suffix
  | case3 c rest ih => exact ih.trans ⟨['\\', c], rfl⟩
  | case4 rest hend hescape => exact List.suffix_cons _ _
  | case5 c rest hend hescape hne ih => exact ih.trans (List.suffix_cons _ _)

/-! ## Escaped texts -/

/-- A text with a backslash before every single quote. -/
def escaped (text : List Char) : List Char :=
  text.flatMap fun c => if c = '\'' then ['\\', c] else [c]

theorem quoted_toList (raw : String) :
    (Session.quoted raw).toList = '\'' :: (escaped raw.toList ++ ['\'']) := by
  simp [Session.quoted, escaped]

@[simp] theorem escaped_nil : escaped [] = [] := rfl

theorem escaped_quote (text : List Char) :
    escaped ('\'' :: text) = '\\' :: '\'' :: escaped text := rfl

theorem escaped_cons {c : Char} (h : c ≠ '\'') (text : List Char) :
    escaped (c :: text) = c :: escaped text := by
  simp [escaped, h]

theorem quotes_escaped (text : List Char) : quotes (escaped text) = quotes text := by
  induction text with
  | nil => rfl
  | cons c text ih =>
    by_cases hc : c = '\''
    · have hslash : isQuote '\\' = false := rfl
      rw [hc, escaped_quote, quotes_cons, quotes_cons, quotes_cons, ih, hslash]
      simp
    · rw [escaped_cons hc, quotes_cons, quotes_cons, ih]

theorem readString_quote (text : List Char) :
    readString '\'' (escaped ('\'' :: text) ++ ['\'']) =
      (readString '\'' (escaped text ++ ['\''])).push '\'' := by
  rw [escaped_quote, List.cons_append, List.cons_append, readString]
  rfl

theorem readString_plain {c : Char} (hquote : c ≠ '\'') (hslash : c ≠ '\\') (text : List Char) :
    readString '\'' (escaped (c :: text) ++ ['\'']) =
      (readString '\'' (escaped text ++ ['\''])).push c := by
  rw [escaped_cons hquote, List.cons_append, readString]
  · rw [if_neg hquote]
  · intro heq
    exact absurd heq hslash
  · intro d rest heq
    exact absurd heq hslash

/-- **Without a backslash the text comes back.** -/
theorem readString_escaped {text : List Char} (h : '\\' ∉ text) :
    readString '\'' (escaped text ++ ['\'']) = ⟨text, [], true⟩ := by
  induction text with
  | nil => rfl
  | cons c text ih =>
    have hslash : c ≠ '\\' := fun heq => h (by simp [heq])
    have htext := ih fun hmem => h (by simp [hmem])
    by_cases hquote : c = '\''
    · rw [hquote, readString_quote, htext]
      rfl
    · rw [readString_plain hquote hslash, htext]
      rfl

theorem readString_slash_quote (text : List Char) :
    readString '\'' (escaped ('\\' :: '\'' :: text) ++ ['\'']) =
      ⟨['\\'], escaped text ++ ['\''], true⟩ := by
  rw [escaped_cons (by decide), escaped_quote]
  rfl

theorem readString_slash {d : Char} (h : d ≠ '\'') (text : List Char) :
    readString '\'' (escaped ('\\' :: d :: text) ++ ['\'']) =
      (readString '\'' (escaped text ++ ['\''])).push (unescape d) := by
  rw [escaped_cons (by decide), escaped_cons h, List.cons_append, List.cons_append, readString]

theorem length_readString_slash {text : List Char}
    (h : (readString '\'' (escaped text ++ ['\''])).text.length ≤ text.length) (d : Char) :
    (readString '\'' (escaped ('\\' :: d :: text) ++ ['\''])).text.length ≤ text.length + 1 := by
  by_cases hquote : d = '\''
  · rw [hquote, readString_slash_quote]
    exact Nat.le_add_left 1 text.length
  · rw [readString_slash hquote]
    exact Nat.succ_le_succ h

/-- What is read of an escaped text is no longer than the text. The recursion goes on behind two
characters at a backslash. -/
theorem length_readString_escaped : ∀ text : List Char,
    (readString '\'' (escaped text ++ ['\''])).text.length ≤ text.length
  | [] => Nat.le_refl _
  | c :: text => by
    by_cases hslash : c = '\\'
    · subst hslash
      cases text with
      | nil => exact Nat.le_refl _
      | cons d text =>
        exact (length_readString_slash (length_readString_escaped text) d).trans (Nat.le_succ _)
    · have hread := length_readString_escaped text
      by_cases hquote : c = '\''
      · rw [hquote, readString_quote]
        exact Nat.succ_le_succ hread
      · rw [readString_plain hquote hslash]
        exact Nat.succ_le_succ hread
termination_by text => text.length

/-- **With a backslash something else is read.** -/
theorem readString_escaped_ne {text : List Char} (h : '\\' ∈ text) :
    (readString '\'' (escaped text ++ ['\''])).text ≠ text := by
  induction text with
  | nil => cases h
  | cons c text ih =>
    intro heq
    by_cases hslash : c = '\\'
    · -- the character behind the backslash is read in its place, or the closing quote
      subst hslash
      cases text with
      | nil => exact absurd heq (by decide)
      | cons d text =>
        have hlength := length_readString_slash (length_readString_escaped text) d
        rw [heq] at hlength
        simp at hlength
    · have hmem : '\\' ∈ text := (List.mem_cons.mp h).resolve_left (Ne.symm hslash)
      by_cases hquote : c = '\''
      · rw [hquote, readString_quote] at heq
        exact ih hmem (List.cons.inj heq).2
      · rw [readString_plain hquote hslash] at heq
        exact ih hmem (List.cons.inj heq).2

/-! ## What a token takes -/

/-- Characters that are neither quotes nor colons. -/
def Plain (text : List Char) : Prop := ∀ c ∈ text, isQuote c = false ∧ c ≠ ':'

theorem plain_nil : Plain [] := by simp [Plain]

theorem plain_append {a b : List Char} (ha : Plain a) (hb : Plain b) : Plain (a ++ b) := by
  intro c hc
  rcases List.mem_append.mp hc with hc | hc
  · exact ha c hc
  · exact hb c hc

theorem plain_cons {c : Char} (hc : isQuote c = false ∧ c ≠ ':') {text : List Char}
    (h : Plain text) : Plain (c :: text) :=
  List.forall_mem_cons.mpr ⟨hc, h⟩

theorem plain_of_class {p : Char → Bool} (hdouble : p '"' = false) (hsingle : p '\'' = false)
    (hcolon : p ':' = false) {c : Char} (h : p c = true) : isQuote c = false ∧ c ≠ ':' := by
  have hne : ∀ d, p d = false → c ≠ d := by
    rintro d hd rfl
    rw [hd] at h
    cases h
  refine ⟨?_, hne ':' hcolon⟩
  simp [isQuote, hne '"' hdouble, hne '\'' hsingle]

/-- A token takes characters from the front of a text. -/
def Takes (text rest : List Char) : Prop := ∃ taken, text = taken ++ rest ∧ Plain taken

theorem Takes.refl (text : List Char) : Takes text text := ⟨[], rfl, plain_nil⟩

theorem Takes.trans {a b c : List Char} (h : Takes a b) (h' : Takes b c) : Takes a c := by
  obtain ⟨taken, rfl, hplain⟩ := h
  obtain ⟨taken', rfl, hplain'⟩ := h'
  exact ⟨taken ++ taken', by simp, plain_append hplain hplain'⟩

theorem Takes.cons {c : Char} (hc : isQuote c = false ∧ c ≠ ':') {text rest : List Char}
    (h : Takes text rest) : Takes (c :: text) rest := by
  obtain ⟨taken, rfl, hplain⟩ := h
  exact ⟨c :: taken, rfl, plain_cons hc hplain⟩

theorem takes_dropWhile {p : Char → Bool} (hdouble : p '"' = false) (hsingle : p '\'' = false)
    (hcolon : p ':' = false) (text : List Char) : Takes text (text.dropWhile p) := by
  refine ⟨text.takeWhile p, List.takeWhile_append_dropWhile.symm, ?_⟩
  intro c hc
  exact plain_of_class hdouble hsingle hcolon (List.all_eq_true.mp List.all_takeWhile c hc)

theorem takes_splitMantissa (text : List Char) : Takes text (splitMantissa text).2 := by
  have hdigits : ∀ text : List Char, Takes text (text.dropWhile Char.isDigit) :=
    takes_dropWhile rfl rfl rfl
  have hwhole := hdigits text
  rw [splitMantissa]
  split
  · next d rest heq =>
    rw [heq] at hwhole
    split
    · exact hwhole.trans ((hdigits (d :: rest)).cons (by decide))
    · exact hwhole
  · next rest heq => exact hwhole

theorem takes_splitExponent (text : List Char) : Takes text (splitExponent text).2 := by
  unfold splitExponent
  split
  · next e c rest =>
    split
    · next hletter =>
      simp only [Bool.and_eq_true] at hletter
      have he := plain_of_class (p := fun e => e = 'e' || e = 'E') rfl rfl rfl hletter.1
      have hc := plain_of_class (p := fun c => c.isDigit || c = '+' || c = '-') rfl rfl rfl
        hletter.2
      exact ((takes_dropWhile rfl rfl rfl rest).cons hc).cons he
    · exact Takes.refl _
  · exact Takes.refl _

theorem takes_readMark (c : Char) (rest : List Char) : Takes rest (readMark c rest).2 := by
  rw [readMark]
  split
  · next m hm =>
    cases rest with
    | nil => exact Takes.refl _
    | cons d rest =>
      have hpair : (pairMark c d).isSome = true := by
        rw [Option.isSome_iff_exists]
        exact ⟨m, hm⟩
      have hd : isQuote d = false ∧ d ≠ ':' := by
        revert hpair
        unfold pairMark
        split <;> simp [isQuote]
      exact (Takes.refl rest).cons hd
  · split
    · exact Takes.refl _
    · exact Takes.refl _

/-- A token that is no literal takes plain characters behind its first. -/
theorem takes_readToken {c : Char} (hc : isQuote c = false) (rest : List Char) :
    Takes rest (readToken c rest).2 := by
  rw [readToken]
  split
  · next hnumber =>
    -- a number takes its first character too
    have hlength := readNumber_length_le c rest (by simpa using hnumber)
    have htakes : Takes (c :: rest) (readNumber (c :: rest)).2 :=
      (takes_splitMantissa _).trans (takes_splitExponent _)
    obtain ⟨taken, heq, hplain⟩ := htakes
    cases taken with
    | nil =>
      rw [List.nil_append] at heq
      rw [← heq] at hlength
      simp at hlength
    | cons d taken =>
      obtain ⟨-, hrest⟩ := List.cons.inj heq
      exact ⟨taken, hrest, fun c hc => hplain c (List.mem_cons_of_mem _ hc)⟩
  · split
    · next hquote =>
      rw [isQuote, hquote] at hc
      cases hc
    · split
      · exact takes_dropWhile (by decide) (by decide) (by decide) rest
      · exact takes_readMark c rest

theorem Takes.quotes_eq {text rest : List Char} (h : Takes text rest) :
    quotes rest = quotes text := by
  obtain ⟨taken, rfl, hplain⟩ := h
  have hzero : quotes taken = 0 := by
    rw [quotes, List.countP_eq_zero]
    intro c hc
    simp [(hplain c hc).1]
  rw [quotes_append, hzero, Nat.zero_add]

/-! ## Quotes of values -/

/-- The number of quotes in the text of a value. -/
def valueQuotes (v : Value) : Nat := quotes v.text.toList

theorem valueQuotes_int (n : Int64) : valueQuotes (.int n) = 0 := by
  have hwrites := Number.writes_integerText n
  exact quotes_eq_zero (hwrites.notMem rfl (by decide) (by decide))
    (hwrites.notMem rfl (by decide) (by decide))

theorem valueQuotes_real (x : Float) : valueQuotes (.real x) = 0 := by
  by_cases hfinite : x.isNaN = false ∧ x.isInf = false
  · have hwrites := Number.writes_shown hfinite.1 hfinite.2
    exact quotes_eq_zero (hwrites.notMem rfl (by decide) (by decide))
      (hwrites.notMem rfl (by decide) (by decide))
  · have hnamed : x.isNaN = true ∨ x.isInf = true := by
      revert hfinite
      cases x.isNaN <;> cases x.isInf <;> simp
    obtain ⟨sign, name, back, hsign, hname, hback, htext⟩ := Number.shown_named hnamed
    show quotes (Number.shown x).toList = 0
    rw [htext]
    rcases hsign with rfl | rfl <;> rcases hname with rfl | rfl <;> rcases hback with rfl | rfl <;>
      decide

theorem valueQuotes_lift (op : Float → Float → Float) (a b : Value) :
    valueQuotes (Value.lift op a b) = 0 := by
  rw [Value.lift, Value.ofResult]
  split
  · exact valueQuotes_real _
  · exact valueQuotes_int _

theorem valueQuotes_ofBool (b : Bool) : valueQuotes (.ofBool b) = 0 := by
  rw [Value.ofBool]
  exact valueQuotes_int _

theorem valueQuotes_neg (v : Value) : valueQuotes v.neg = 0 := by
  unfold Value.neg
  split
  · exact valueQuotes_int _
  · exact valueQuotes_real _
  · dsimp only
    split
    · exact valueQuotes_int _
    · exact valueQuotes_real _
    · exact valueQuotes_int _
  · exact valueQuotes_int _

/-- No operator makes quotes: only addition keeps the texts of its operands. -/
theorem valueQuotes_apply {op : BinaryOp} {a b v : Value} (h : op.apply a b = .ok v) :
    valueQuotes v ≤ valueQuotes a + valueQuotes b := by
  have hzero : valueQuotes v = 0 → valueQuotes v ≤ valueQuotes a + valueQuotes b := by
    intro heq
    rw [heq]
    exact Nat.zero_le _
  cases op with
  | add =>
    cases h
    rw [Value.add] at hzero ⊢
    split
    · simp [valueQuotes, Value.text]
    · next hprose =>
      rw [if_neg hprose] at hzero
      exact hzero (valueQuotes_lift _ a b)
  | sub => cases h; exact hzero (valueQuotes_lift _ a b)
  | mul => cases h; exact hzero (valueQuotes_lift _ a b)
  | div =>
    simp only [BinaryOp.apply, Value.div] at h
    split at h
    · cases h
    · cases h; exact hzero (valueQuotes_lift _ a b)
  | rem =>
    simp only [BinaryOp.apply, Value.rem] at h
    split at h
    · cases h
    · cases h; exact hzero (valueQuotes_lift _ a b)
  | _ => cases h; exact hzero (valueQuotes_ofBool _)

theorem valueQuotes_decided {op : BinaryOp} {a v : Value} (h : op.decided a = some v) :
    valueQuotes v = 0 := by
  unfold BinaryOp.decided at h
  split at h
  · split at h
    · cases h
    · cases h; exact valueQuotes_ofBool _
  · split at h
    · cases h; exact valueQuotes_ofBool _
    · cases h
  · cases h

/-- The number of quotes in the texts of values. -/
def totalQuotes (values : List Value) : Nat := (values.map valueQuotes).sum

/-- **The value of an expression has no more quotes than its literals.** -/
theorem quotes_eval {e : Expr} {v : Value} (h : e.eval = .ok v) :
    valueQuotes v ≤ totalQuotes e.literals := by
  induction e generalizing v with
  | literal w =>
    cases h
    simp [totalQuotes, literals]
  | unary op e ih =>
    have hzero : valueQuotes v = 0 := by
      rw [Expr.eval] at h
      cases heval : e.eval with
      | error fault => rw [heval] at h; cases h
      | ok a =>
        rw [heval] at h
        cases h
        cases op with
        | neg => exact valueQuotes_neg a
        | not => exact valueQuotes_ofBool _
    rw [hzero]
    exact Nat.zero_le _
  | binary op l r ihl ihr =>
    rw [Expr.eval] at h
    cases hleft : l.eval with
    | error fault => rw [hleft] at h; cases h
    | ok a =>
      rw [hleft] at h
      have hsum : totalQuotes (Expr.binary op l r).literals =
          totalQuotes l.literals + totalQuotes r.literals := by
        simp [totalQuotes, literals]
      dsimp only [bind, Except.bind] at h
      cases hdecided : op.decided a with
      | some w =>
        rw [hdecided] at h
        cases h
        rw [valueQuotes_decided hdecided]
        exact Nat.zero_le _
      | none =>
        rw [hdecided] at h
        cases hright : r.eval with
        | error fault => rw [hright] at h; cases h
        | ok b =>
          rw [hright] at h
          have happly := valueQuotes_apply h
          have hl := ihl hleft
          have hr := ihr hright
          omega

/-! ## Quotes of tokens -/

theorem valueQuotes_keyword {name : String} {v : Value} (h : keyword name = some v) :
    valueQuotes v = 0 := by
  unfold keyword at h
  split at h
  · cases h; exact valueQuotes_int _
  · cases h; exact valueQuotes_int _
  · cases h; exact valueQuotes_int _
  · cases h; exact valueQuotes_int _
  · cases h; rfl
  · cases h

theorem valueQuotes_number {mantissa exponent : List Char} {v : Value}
    (h : (numberToken mantissa exponent).literal? = some v) : valueQuotes v = 0 := by
  unfold numberToken at h
  dsimp only at h
  split at h
  · cases h; exact valueQuotes_real _
  · split at h
    · cases h; exact valueQuotes_int _
    · cases h; exact valueQuotes_real _

theorem valueQuotes_name {spelling : List Char} {v : Value}
    (h : (nameToken spelling).literal? = some v) : valueQuotes v = 0 := by
  unfold nameToken at h
  split at h
  · cases h
  · cases h
  · cases h
  · exact valueQuotes_keyword h

theorem literal_readMark (c : Char) (rest : List Char) : (readMark c rest).1.literal? = none := by
  rw [readMark]
  split
  · rfl
  · split
    · rfl
    · rfl

/-- Only a text literal has quotes. -/
theorem valueQuotes_readToken {c : Char} (hc : isQuote c = false) {rest : List Char} {v : Value}
    (h : (readToken c rest).1.literal? = some v) : valueQuotes v = 0 := by
  rw [readToken] at h
  split at h
  · exact valueQuotes_number h
  · split at h
    · next hquote =>
      rw [isQuote, hquote] at hc
      cases hc
    · split at h
      · exact valueQuotes_name h
      · rw [literal_readMark] at h
        cases h

theorem readToken_quote {c : Char} (hc : isQuote c = true) (rest : List Char) :
    readToken c rest =
      (.str (String.ofList (readString c rest).text), (readString c rest).rest) := by
  have hquote : (c = '"' || c = '\'') = true := hc
  have hnumber : (c.isDigit || (c = '.' && rest.head?.any Char.isDigit)) = false := by
    simp only [Bool.or_eq_true, decide_eq_true_eq] at hquote
    rcases hquote with rfl | rfl <;> simp
  rw [readToken, hnumber, hquote]
  rfl

theorem totalQuotes_token (t : Token) (tokens : List Token) :
    totalQuotes ((t :: tokens).filterMap Token.literal?) =
      totalQuotes t.literal?.toList + totalQuotes (tokens.filterMap Token.literal?) := by
  cases ht : t.literal? with
  | none => simp [totalQuotes, ht]
  | some v => simp [totalQuotes, ht]

theorem totalQuotes_str (text : List Char) :
    totalQuotes (Token.str (String.ofList text)).literal?.toList = quotes text := by
  simp [totalQuotes, Token.literal?, valueQuotes, Value.text]

/-- **Every text literal loses the quote that opens it.** -/
theorem quotes_tokenize (text : List Char) :
    totalQuotes ((tokenize text).filterMap Token.literal?) ≤ quotes text - 1 := by
  fun_induction tokenize text with
  | case1 text h => simp [totalQuotes]
  | case2 text c rest h ih =>
    have htrim : quotes text = quotes (c :: rest) := by
      rw [← h]
      exact (takes_dropWhile rfl rfl rfl text).quotes_eq.symm
    rw [htrim, totalQuotes_token, quotes_cons]
    cases hc : isQuote c with
    | true =>
      have hread := quotes_readString hc rest
      rw [readToken_quote hc] at ih ⊢
      rw [totalQuotes_str]
      simp only [Bool.toNat_true] at ih ⊢
      omega
    | false =>
      have hrest := (takes_readToken hc rest).quotes_eq
      have hliteral : totalQuotes (readToken c rest).1.literal?.toList = 0 := by
        cases hv : (readToken c rest).1.literal? with
        | none => rfl
        | some v => simp [totalQuotes, valueQuotes_readToken hc hv]
      rw [hliteral]
      simp only [Bool.toNat_false]
      omega

/-! ## The variables of a session -/

theorem evalText_escaped {text : List Char} (h : '\\' ∉ text) :
    evalText ('\'' :: (escaped text ++ ['\''])) = .ok (.str (String.ofList text)) := by
  have htokens : tokenize ('\'' :: (escaped text ++ ['\''])) = [.str (String.ofList text)] := by
    rw [tokenize_cons (by decide), readToken_quote rfl, readString_escaped h, tokenize_nil]
  have hparse : parse ('\'' :: (escaped text ++ ['\''])) =
      .ok (.literal (.str (String.ofList text))) := by
    rw [parse, htokens]
    exact parseTokens_operand rfl
  rw [evalText, hparse]
  rfl

/-- What is left of an escaped text ends with the closing quote. -/
theorem quotes_rest_pos {text : List Char}
    (h : (readString '\'' (escaped text ++ ['\''])).rest ≠ []) :
    0 < quotes (readString '\'' (escaped text ++ ['\''])).rest := by
  obtain ⟨front, heq⟩ := rest_suffix '\'' (escaped text ++ ['\''])
  generalize (readString '\'' (escaped text ++ ['\''])).rest = rest at h heq
  have hlast : rest.getLast? = some '\'' := by
    have hwhole := congrArg List.getLast? heq
    rwa [List.getLast?_append_of_ne_nil front h, List.getLast?_concat] at hwhole
  rw [quotes, List.countP_pos_iff]
  exact ⟨'\'', List.mem_of_getLast? hlast, rfl⟩

/-- The value of an escaped text with a backslash is another one: it is that of one literal, which
lacks the backslash, or it comes from several, which have fewer quotes. -/
theorem evalText_escaped_ne {text : List Char} (h : '\\' ∈ text) :
    evalText ('\'' :: (escaped text ++ ['\''])) ≠ .ok (.str (String.ofList text)) := by
  intro heval
  generalize hliteral : readString '\'' (escaped text ++ ['\'']) = literal
  have htokens : tokenize ('\'' :: (escaped text ++ ['\''])) =
      .str (String.ofList literal.text) :: tokenize literal.rest := by
    rw [tokenize_cons (by decide), readToken_quote rfl, hliteral]
  have hne : literal.text ≠ text := by
    rw [← hliteral]
    exact readString_escaped_ne h
  rw [evalText] at heval
  cases hparse : parse ('\'' :: (escaped text ++ ['\''])) with
  | error fault => rw [hparse] at heval; cases heval
  | ok e =>
    rw [hparse] at heval
    change e.eval = _ at heval
    by_cases hrest : literal.rest = []
    · rw [parse, htokens, hrest, tokenize_nil] at hparse
      have hone := parseTokens_operand (t := .str (String.ofList literal.text)) rfl
      rw [hone] at hparse
      cases hparse
      have hsame : Value.str (String.ofList literal.text) = .str (String.ofList text) :=
        Except.ok.inj heval
      exact hne (String.ofList_inj.mp (Value.str.inj hsame))
    · have hclosed : literal.closed = true := by
        rw [← hliteral] at hrest ⊢
        exact closed_of_rest hrest
      have hpos : 0 < quotes literal.rest := by
        rw [← hliteral] at hrest ⊢
        exact quotes_rest_pos hrest
      have hread : quotes literal.text + quotes literal.rest + 1 ≤ quotes text + 1 := by
        have hcount := quotes_readString (show isQuote '\'' = true from rfl)
          (escaped text ++ ['\''])
        rw [hliteral, hclosed, quotes_append, quotes_escaped] at hcount
        exact hcount
      have hbehind := quotes_tokenize literal.rest
      have hvalue := quotes_eval heval
      rw [literals_of_parse hparse, htokens, totalQuotes_token] at hvalue
      have hfirst : totalQuotes (Token.str (String.ofList literal.text)).literal?.toList =
          quotes literal.text := totalQuotes_str literal.text
      have hwhole : valueQuotes (.str (String.ofList text)) = quotes text := by
        simp [valueQuotes, Value.text]
      omega

/-- A call of `get` on a variable. -/
def getCall (name : String) (params : List Value) (frame : Nat) : Call :=
  ⟨some ⟨Session.variableKind, name⟩, "get", params, frame⟩

theorem answer_get (session : Session) (name : String) (params : List Value) (frame : Nat) :
    (Session.registry.answer (getCall name params frame) session).result =
      .value (Session.valueOf ((getCall name params frame).paramText 0) (session.vars.get name)) :=
  rfl

/-- A text in quotes is put into a condition as it is. -/
theorem splicedText_quoted (raw : String) :
    Play.splicedText (some (.str (Session.quoted raw))) = (Session.quoted raw).toList := by
  have htruth : (Value.str (Session.quoted raw)).truth = true := by
    have hne : ∀ text : String, text.toList.head? ≠ some '\'' → Session.quoted raw ≠ text := by
      rintro text hhead rfl
      rw [quoted_toList] at hhead
      exact hhead rfl
    simp [Value.truth, hne "" (by decide), hne "0" (by decide)]
  rw [Play.splicedText, if_pos htruth]
  rfl

/-- **When a text comes back from a condition.** In its default mode `get` gives the text of a
variable that is no number in quotes. A condition takes that as it is, and its value is the text of
the variable just if there is no backslash in it. -/
theorem get_evaluates_iff (session : Session) (name : String) (params : List Value) (frame : Nat)
    (hunwrapped : (getCall name params frame).paramText 0 ≠ "unwrapped")
    (hinteger : (getCall name params frame).paramText 0 ≠ "integer")
    (hnumber : Session.number (session.vars.get name) = none) :
    ∃ v, (Session.registry.answer (getCall name params frame) session).result = .value v ∧
      Play.splicedText (some v) = v.text.toList ∧
      (evalText v.text.toList = .ok (.str (session.vars.get name)) ↔
        '\\' ∉ (session.vars.get name).toList) := by
  refine ⟨.str (Session.quoted (session.vars.get name)), ?_, splicedText_quoted _, ?_⟩
  · rw [answer_get, Number.valueOf_default hunwrapped hinteger, hnumber]
    rfl
  · have htext : (Value.str (Session.quoted (session.vars.get name))).text.toList =
        '\'' :: (escaped (session.vars.get name).toList ++ ['\'']) := quoted_toList _
    have hraw : session.vars.get name = String.ofList (session.vars.get name).toList := by simp
    rw [htext]
    generalize (session.vars.get name).toList = raw at hraw
    rw [hraw]
    constructor
    · intro heval hslash
      exact evalText_escaped_ne hslash heval
    · intro hslash
      exact evalText_escaped hslash

/-- A session with one variable. -/
def sessionWith (text : String) : Session := { vars := Vars.empty.set "x" text }

theorem get_evaluates_quotes :
    Session.number ((sessionWith "it's \"5\"").vars.get "x") = none ∧
    ∃ v, (Session.registry.answer (getCall "x" [] 1) (sessionWith "it's \"5\"")).result = .value v ∧
      Play.splicedText (some v) = v.text.toList ∧
      evalText v.text.toList = .ok (.str "it's \"5\"") := by
  have hraw : (sessionWith "it's \"5\"").vars.get "x" = "it's \"5\"" := by decide +kernel
  have hnumber : Session.number ((sessionWith "it's \"5\"").vars.get "x") = none := by
    rw [hraw]
    rfl
  obtain ⟨v, hv, hspliced, hiff⟩ :=
    get_evaluates_iff (sessionWith "it's \"5\"") "x" [] 1 (by decide) (by decide) hnumber
  rw [hraw] at hiff
  exact ⟨hnumber, v, hv, hspliced, hiff.mpr (by decide)⟩

/-- A text that ends with a backslash: the closing quote is escaped, and is read as a part of the
text. -/
theorem get_backslash :
    Session.number ((sessionWith "a\\").vars.get "x") = none ∧
    (Session.registry.answer (getCall "x" [] 1) (sessionWith "a\\")).result =
      .value (.str "'a\\'") ∧
    evalText "'a\\'".toList = .ok (.str "a'") ∧
    evalText "'a\\'".toList ≠ .ok (.str ((sessionWith "a\\").vars.get "x")) := by
  have hraw : (sessionWith "a\\").vars.get "x" = "a\\" := by decide +kernel
  have hnumber : Session.number "a\\" = none := rfl
  have hvalue : evalText "'a\\'".toList = .ok (.str "a'") := by cbv
  refine ⟨by rw [hraw, hnumber], ?_, hvalue, ?_⟩
  · rw [answer_get, hraw, Number.valueOf_default (by decide) (by decide), hnumber]
    rfl
  · rw [hvalue, hraw]
    intro heq
    have hsame := Value.str.inj (Except.ok.inj heq)
    exact absurd hsame (by decide)

end Cutscene.Expr
