import Cutscene.Proofs.Expr.Derivation
import Cutscene.Proofs.Expr.Quoting

/-!
Expressions written as text, and read back.

An operand is written in parentheses just if its level is looser than the one that stands there: a
level of binary operators has itself on the left and the next tighter level on the right, and a sign
has signs behind it (`write`). Integers are written in digits, texts in single quotes with a
backslash before every single quote and every backslash of their own.

Every part of what is written is cut into the tokens that it was meant to be, whatever stands behind
it, as long as a blank or a closing parenthesis comes first (`Spells`); and these tokens derive the
tree of that part (`spells_write`). So reading the whole text gives the tree back (`parse_written`).
-/
namespace Cutscene

/-- What a writer of expressions may choose: the words or the signs for `and` and `or`, and a blank
between a sign and its operand. -/
structure Style where
  andWord : Bool
  orWord : Bool
  signBlank : Bool

/-- The level of an operator with two operands. -/
def BinaryOp.level : BinaryOp → Expr.Level
  | .or => .or
  | .and => .and
  | .eq | .ne | .lt | .le | .gt | .ge => .relational
  | .add | .sub => .additive
  | .mul | .div | .rem => .multiplicative

def BinaryOp.spelling (style : Style) : BinaryOp → List Char
  | .add => ['+']
  | .sub => ['-']
  | .mul => ['*']
  | .div => ['/']
  | .rem => ['%']
  | .eq => ['=', '=']
  | .ne => ['!', '=']
  | .lt => ['<']
  | .le => ['<', '=']
  | .gt => ['>']
  | .ge => ['>', '=']
  | .and => if style.andWord then ['a', 'n', 'd'] else ['&', '&']
  | .or => if style.orWord then ['o', 'r'] else ['|', '|']

def UnaryOp.sign : UnaryOp → Char
  | .neg => '-'
  | .not => '!'

namespace Expr

open Text Number

/-- A text with a backslash before every single quote and every backslash. -/
def slashed (text : List Char) : List Char :=
  text.flatMap fun c => if c = '\'' ∨ c = '\\' then ['\\', c] else [c]

/-- The spelling of a literal: a text in single quotes, and a number in its digits. -/
def spelling : Value → List Char
  | .str s => '\'' :: (slashed s.toList ++ ['\''])
  | v => v.text.toList

/-- An operand of a level, as it is written where another level stands. -/
def enclosed (inner outer : Level) (text : List Char) : List Char :=
  if inner.rank ≤ outer.rank then text else '(' :: (text ++ [')'])

/-- The text of an expression that stands where expressions of a level do. -/
def write (style : Style) (outer : Level) : Expr → List Char
  | .literal v => spelling v
  | .unary op e =>
    enclosed .unary outer
      (op.sign :: ((if style.signBlank then [' '] else []) ++ write style .unary e))
  | .binary op l r =>
    enclosed op.level outer
      (write style op.level l ++ ' ' :: (op.spelling style ++ ' ' :: write style op.level.tighter r))

/-- The text of an expression. -/
def written (style : Style) (e : Expr) : List Char := write style .or e

/-- An expression whose literals are texts and integers without a sign. -/
inductive Writable : Expr → Prop where
  | int {n : Int64} : 0 ≤ n → Writable (.literal (.int n))
  | str (s : String) : Writable (.literal (.str s))
  | unary {op : UnaryOp} {e : Expr} : Writable e → Writable (.unary op e)
  | binary {op : BinaryOp} {l r : Expr} : Writable l → Writable r → Writable (.binary op l r)

/-! ## Levels -/

theorem Derives.of_tighter {level : Level} {tokens : List Token} {e : Expr}
    (h : Derives level.tighter tokens e) : Derives level tokens e := by
  cases level with
  | or => exact .single .or h
  | and => exact .single .and h
  | not => exact .compared h
  | relational => exact .single .relational h
  | additive => exact .single .additive h
  | multiplicative => exact .single .multiplicative h
  | unary => exact .signless h
  | primary => exact h

/-- What derives at a level derives at every looser one. -/
theorem Derives.looser {a b : Level} {tokens : List Token} {e : Expr} (h : Derives a tokens e)
    (hle : a.rank ≤ b.rank) : Derives b tokens e := by
  obtain ⟨distance, hdistance⟩ := Nat.le.dest hle
  induction distance generalizing b with
  | zero =>
    have hsame : a = b := by
      revert hdistance
      cases a <;> cases b <;> decide
    exact hsame ▸ h
  | succ distance ih =>
    have hpos := a.rank_pos
    have htighter : b.tighter.rank + 1 = b.rank := by
      cases b with
      | primary =>
        have hone : Level.primary.rank = 1 := rfl
        omega
      | _ => rfl
    exact .of_tighter (ih (by omega) (by omega))

theorem over_tighter (op : BinaryOp) : op.level.Over op.level.tighter := by
  cases op <;> constructor

/-! ## Spelling -/

/-- What may stand behind an operand: nothing, a blank or a closing parenthesis. -/
def Apart (rest : List Char) : Prop := ∀ c ∈ rest.head?, c = ' ' ∨ c = ')'

/-- A text that is cut into these tokens, whatever stands apart behind it. It does not begin with the
sign that `!` would be joined to. -/
structure Spells (text : List Char) (tokens : List Token) : Prop where
  front : ∃ c more, text = c :: more ∧ c ≠ '='
  cut : ∀ rest, Apart rest → tokenize (text ++ rest) = tokens ++ tokenize rest

theorem tokenize_space (rest : List Char) : tokenize (' ' :: rest) = tokenize rest :=
  tokenize_blank (by decide) rest

theorem tokenize_open (rest : List Char) :
    tokenize ('(' :: rest) = .mark .leftParen :: tokenize rest := by
  have hread : readToken '(' rest = (.mark .leftParen, rest) := by
    cases rest <;> rfl
  rw [tokenize_cons (by decide), hread]

theorem tokenize_close (rest : List Char) :
    tokenize (')' :: rest) = .mark .rightParen :: tokenize rest := by
  have hread : readToken ')' rest = (.mark .rightParen, rest) := by
    cases rest <;> rfl
  rw [tokenize_cons (by decide), hread]

/-- An exclamation mark is a token of its own unless it begins the sign of inequality. -/
theorem tokenize_bang {c : Char} (h : c ≠ '=') (rest : List Char) :
    tokenize ('!' :: c :: rest) = .mark .bang :: tokenize (c :: rest) := by
  have hpair : pairMark '!' c = none := by
    unfold pairMark
    split <;> simp_all
  have hread : readToken '!' (c :: rest) = (.mark .bang, c :: rest) := by
    show readMark '!' (c :: rest) = _
    simp only [readMark, List.head?_cons, Option.bind_some, hpair]
    rfl
  rw [tokenize_cons (by decide), hread]

/-- An operator with a blank behind it is one token, which is of its level. -/
theorem tokenize_operator (style : Style) (op : BinaryOp) :
    ∃ m, op.level.Has m op ∧
      ∀ rest, tokenize (op.spelling style ++ ' ' :: rest) = .mark m :: tokenize rest := by
  have hspelled : ∀ (spelling : List Char) (m : Mark),
      (∀ rest, ∃ c more, spelling ++ ' ' :: rest = c :: more ∧ isBlank c = false ∧
        readToken c more = (.mark m, ' ' :: rest)) →
      ∀ rest, tokenize (spelling ++ ' ' :: rest) = .mark m :: tokenize rest := by
    intro spelling m h rest
    obtain ⟨c, more, heq, hblank, hread⟩ := h rest
    rw [heq, tokenize_cons hblank, hread, tokenize_space]
  cases op with
  | add => exact ⟨.plus, .add, hspelled _ _ fun rest => ⟨_, _, rfl, by decide, rfl⟩⟩
  | sub => exact ⟨.minus, .sub, hspelled _ _ fun rest => ⟨_, _, rfl, by decide, rfl⟩⟩
  | mul => exact ⟨.star, .mul, hspelled _ _ fun rest => ⟨_, _, rfl, by decide, rfl⟩⟩
  | div => exact ⟨.slash, .div, hspelled _ _ fun rest => ⟨_, _, rfl, by decide, rfl⟩⟩
  | rem => exact ⟨.percent, .rem, hspelled _ _ fun rest => ⟨_, _, rfl, by decide, rfl⟩⟩
  | eq => exact ⟨.eq, .eq, hspelled _ _ fun rest => ⟨_, _, rfl, by decide, rfl⟩⟩
  | ne => exact ⟨.ne, .ne, hspelled _ _ fun rest => ⟨_, _, rfl, by decide, rfl⟩⟩
  | lt => exact ⟨.lt, .lt, hspelled _ _ fun rest => ⟨_, _, rfl, by decide, rfl⟩⟩
  | le => exact ⟨.le, .le, hspelled _ _ fun rest => ⟨_, _, rfl, by decide, rfl⟩⟩
  | gt => exact ⟨.gt, .gt, hspelled _ _ fun rest => ⟨_, _, rfl, by decide, rfl⟩⟩
  | ge => exact ⟨.ge, .ge, hspelled _ _ fun rest => ⟨_, _, rfl, by decide, rfl⟩⟩
  | and =>
    refine ⟨.and, .and, hspelled _ _ fun rest => ?_⟩
    cases hword : style.andWord with
    | true => exact ⟨'a', 'n' :: 'd' :: ' ' :: rest, by simp [BinaryOp.spelling, hword], by decide, rfl⟩
    | false => exact ⟨'&', '&' :: ' ' :: rest, by simp [BinaryOp.spelling, hword], by decide, rfl⟩
  | or =>
    refine ⟨.or, .or, hspelled _ _ fun rest => ?_⟩
    cases hword : style.orWord with
    | true => exact ⟨'o', 'r' :: ' ' :: rest, by simp [BinaryOp.spelling, hword], by decide, rfl⟩
    | false => exact ⟨'|', '|' :: ' ' :: rest, by simp [BinaryOp.spelling, hword], by decide, rfl⟩

/-! ## Literals -/

theorem readString_slashed (text rest : List Char) :
    readString '\'' (slashed text ++ '\'' :: rest) = ⟨text, rest, true⟩ := by
  induction text with
  | nil => rfl
  | cons c text ih =>
    by_cases hc : c = '\'' ∨ c = '\\'
    · have hcons : slashed (c :: text) = '\\' :: c :: slashed text := by simp [slashed, hc]
      have hsame : unescape c = c := by rcases hc with rfl | rfl <;> rfl
      rw [hcons, List.cons_append, List.cons_append, readString, ih, hsame]
      rfl
    · have hcons : slashed (c :: text) = c :: slashed text := by simp [slashed, hc]
      rw [not_or] at hc
      rw [hcons, List.cons_append, readString, if_neg hc.1, ih]
      · rfl
      · intro heq
        exact absurd heq hc.2
      · intro d behind heq
        exact absurd heq hc.2

theorem spells_str (s : String) : Spells (spelling (.str s)) [.str s] := by
  refine ⟨⟨'\'', _, rfl, by decide⟩, fun rest _ => ?_⟩
  have htext : spelling (.str s) ++ rest = '\'' :: (slashed s.toList ++ '\'' :: rest) := by
    simp [spelling]
  rw [htext, tokenize_cons (by decide), readToken_quote rfl, readString_slashed]
  simp

theorem spelling_int {n : Int64} (h : 0 ≤ n) :
    ∃ size : Nat, spelling (.int n) = Nat.toDigits 10 size ∧ n.toInt = size := by
  have hnonneg : 0 ≤ n.toInt := Int64.le_iff_toInt_le.mp h
  obtain ⟨size, hsize⟩ := Int.eq_ofNat_of_zero_le hnonneg
  refine ⟨size, ?_, hsize⟩
  show (toString n.toInt).toList = _
  rw [hsize]
  show size.repr.toList = _
  rw [Nat.repr_eq_ofList_toDigits, String.toList_ofList]

theorem splitSign_digits {digits : List Char} (h : AllDigits digits) :
    splitSign digits = (false, digits) := by
  unfold splitSign
  split
  · next rest => exact absurd (h '-' (by simp)) (by decide)
  · next rest => exact absurd (h '+' (by simp)) (by decide)
  · rfl

theorem readInteger_toDigits {n : Int64} {size : Nat} (h : n.toInt = size) :
    readInteger (Nat.toDigits 10 size) = some n := by
  have hdigits : isDigits (Nat.toDigits 10 size) = true :=
    isDigits_iff.mpr ⟨toDigits_ne_nil size, allDigits_toDigits size⟩
  have hlow := n.minValue_le_toInt
  have hhigh := n.toInt_le
  have hbounds : (Int64.minValue.toInt ≤ n.toInt && n.toInt ≤ Int64.maxValue.toInt) = true := by
    simp only [hlow, hhigh, decide_true, Bool.and_self]
  rw [readInteger, splitSign_digits (allDigits_toDigits size)]
  simp only [hdigits, ofDigits_toDigits, Bool.not_true, Bool.false_eq_true, if_false, ← h,
    Int64.ofInt_toInt, hbounds, if_true]

/-- Digits with something apart behind them are one token. -/
theorem readNumber_digits {digits rest : List Char} (h : AllDigits digits) (hrest : Apart rest) :
    readNumber (digits ++ rest) = (numberToken digits [], rest) := by
  have hhead : ∀ c ∈ rest.head?, c.isDigit = false ∧ c ≠ '.' ∧ c ≠ 'e' ∧ c ≠ 'E' := by
    intro c hc
    rcases hrest c hc with rfl | rfl <;> decide
  obtain ⟨htake, hdrop⟩ := takeWhile_digits h fun c hc => (hhead c hc).1
  have hmantissa : splitMantissa (digits ++ rest) = (digits, rest) := by
    rw [splitMantissa, htake, hdrop]
    split
    · next d behind => exact absurd rfl (hhead '.' rfl).2.1
    · rfl
  have hexponent : splitExponent rest = ([], rest) := by
    unfold splitExponent
    split
    · next e c behind =>
      have he := (hhead e rfl).2.2
      simp [he.1, he.2]
    · rfl
  rw [readNumber, hmantissa]
  simp only [hexponent]

theorem spells_int {n : Int64} (h : 0 ≤ n) : Spells (spelling (.int n)) [.int n] := by
  obtain ⟨size, hspelling, hsize⟩ := spelling_int h
  have hdigits := allDigits_toDigits size
  obtain ⟨c, more, hcons⟩ := List.exists_cons_of_ne_nil (toDigits_ne_nil size)
  have hc : c.isDigit = true := hdigits c (by simp [hcons])
  rw [hspelling]
  refine ⟨⟨c, more, hcons, ?_⟩, fun rest hrest => ?_⟩
  · rintro rfl
    exact absurd hc (by decide)
  · have htoken : numberToken (Nat.toDigits 10 size) [] = .int n := by
      have hpoint := point_notMem_digits hdigits
      simp [numberToken, readInteger_toDigits hsize, hpoint]
    have hnumber := readNumber_digits hdigits hrest
    rw [hcons, List.cons_append] at hnumber
    rw [hcons, List.cons_append, tokenize_cons (isBlank_of_isDigit hc), readToken,
      if_pos (by simp [hc]), hnumber, ← hcons, htoken]
    rfl

/-! ## Expressions -/

theorem apart_close (rest : List Char) : Apart (')' :: rest) := by simp [Apart]

theorem apart_space (rest : List Char) : Apart (' ' :: rest) := by simp [Apart]

/-- An expression that derives from its own text is written where any level stands. -/
theorem spells_enclosed {inner : Level} {text : List Char} {tokens : List Token} {e : Expr}
    (hspells : Spells text tokens) (hderives : Derives inner tokens e) (outer : Level) :
    ∃ row, Spells (enclosed inner outer text) row ∧ Derives outer row e := by
  unfold enclosed
  split
  · next hle => exact ⟨tokens, hspells, hderives.looser hle⟩
  · have hgrouped : Derives .primary (.mark .leftParen :: tokens ++ [.mark .rightParen]) e :=
      .grouped (hderives.looser (by cases inner <;> decide))
    refine ⟨_, ⟨⟨'(', _, rfl, by decide⟩, fun rest _ => ?_⟩,
      hgrouped.looser (by cases outer <;> decide)⟩
    have htext : '(' :: (text ++ [')']) ++ rest = '(' :: (text ++ ')' :: rest) := by simp
    rw [htext, tokenize_open, hspells.cut _ (apart_close rest), tokenize_close]
    simp

theorem spells_sign (style : Style) (op : UnaryOp) {text : List Char} {tokens : List Token}
    {e : Expr} (hspells : Spells text tokens) (hderives : Derives .unary tokens e) :
    ∃ row, Spells (op.sign :: ((if style.signBlank then [' '] else []) ++ text)) row ∧
      Derives .unary row (.unary op e) := by
  obtain ⟨c, more, rfl, hc⟩ := hspells.front
  -- the blank between the two, if there is one, leaves no token
  have hbehind : ∃ d behind, (if style.signBlank then [' '] else []) ++ c :: more = d :: behind ∧
      d ≠ '=' ∧ ∀ rest, tokenize (d :: behind ++ rest) = tokenize (c :: more ++ rest) := by
    cases style.signBlank with
    | true => exact ⟨' ', c :: more, rfl, by decide, fun rest => tokenize_space _⟩
    | false => exact ⟨c, more, rfl, hc, fun rest => rfl⟩
  obtain ⟨d, behind, hcons, hd, htokens⟩ := hbehind
  rw [hcons]
  cases op with
  | neg =>
    refine ⟨_, ⟨⟨'-', _, rfl, by decide⟩, fun rest hrest => ?_⟩, .minus hderives⟩
    rw [UnaryOp.sign, List.cons_append, tokenize_minus, htokens, hspells.cut rest hrest]
    rfl
  | not =>
    refine ⟨_, ⟨⟨'!', _, rfl, by decide⟩, fun rest hrest => ?_⟩, .bang hderives⟩
    rw [UnaryOp.sign, List.cons_append, List.cons_append, tokenize_bang hd, ← List.cons_append,
      htokens, hspells.cut rest hrest]
    rfl

theorem spells_binary (style : Style) (op : BinaryOp) {left right : List Char}
    {before behind : List Token} {l r : Expr} (hleft : Spells left before)
    (hright : Spells right behind) (hl : Derives op.level before l)
    (hr : Derives op.level.tighter behind r) :
    ∃ row, Spells (left ++ ' ' :: (op.spelling style ++ ' ' :: right)) row ∧
      Derives op.level row (.binary op l r) := by
  obtain ⟨m, has, hoperator⟩ := tokenize_operator style op
  refine ⟨before ++ .mark m :: behind, ⟨?_, fun rest hrest => ?_⟩,
    .binary (over_tighter op) has hl hr⟩
  · obtain ⟨c, more, rfl, hc⟩ := hleft.front
    exact ⟨c, _, rfl, hc⟩
  · have htext : left ++ ' ' :: (op.spelling style ++ ' ' :: right) ++ rest =
        left ++ ' ' :: (op.spelling style ++ ' ' :: (right ++ rest)) := by simp
    rw [htext, hleft.cut _ (apart_space _), tokenize_space, hoperator, hright.cut rest hrest]
    simp

/-- **What is written spells tokens that derive the tree**, where any level stands. -/
theorem spells_write (style : Style) {e : Expr} (h : Writable e) (outer : Level) :
    ∃ row, Spells (write style outer e) row ∧ Derives outer row e := by
  induction h generalizing outer with
  | int hn => exact ⟨_, spells_int hn, (Derives.int _).looser (by cases outer <;> decide)⟩
  | str s => exact ⟨_, spells_str s, (Derives.str s).looser (by cases outer <;> decide)⟩
  | @unary op e _ ih =>
    obtain ⟨tokens, hspells, hderives⟩ := ih .unary
    obtain ⟨row, hrow, hsigned⟩ := spells_sign style op hspells hderives
    exact spells_enclosed hrow hsigned outer
  | @binary op l r _ _ ihl ihr =>
    obtain ⟨before, hleft, hl⟩ := ihl op.level
    obtain ⟨behind, hright, hr⟩ := ihr op.level.tighter
    obtain ⟨row, hrow, hbinary⟩ := spells_binary style op hleft hright hl hr
    exact spells_enclosed hrow hbinary outer

/-- **An expression comes back from its text.** It is written in any style, with parentheses around an
operand just where its level is looser than the place it stands in. -/
theorem parse_written (style : Style) {e : Expr} (h : Writable e) :
    parse (written style e) = .ok e := by
  obtain ⟨row, hspells, hderives⟩ := spells_write style h .or
  have hcut := hspells.cut [] (by simp [Apart])
  rw [List.append_nil, tokenize_nil, List.append_nil] at hcut
  rw [parse, written, hcut]
  exact parseTokens_of_derives hderives

/-- A difference on the right of a difference, a conjunction below a sign, and a text with both
characters that are escaped. -/
def tangled : Expr :=
  .binary .or
    (.unary .not (.binary .and (.literal (.int 0)) (.unary .not (.literal (.str "it's a \\")))))
    (.binary .lt
      (.binary .sub (.binary .sub (.literal (.int 9223372036854775807)) (.literal (.int 2)))
        (.binary .sub (.literal (.int 3)) (.unary .neg (.unary .neg (.literal (.int 4))))))
      (.binary .mul (.binary .add (.literal (.int 5)) (.literal (.int 6))) (.literal (.int 7))))

theorem parse_written_tangled :
    written ⟨true, false, false⟩ tangled =
        "!(0 and !'it\\'s a \\\\') || 9223372036854775807 - 2 - (3 - --4) < (5 + 6) * 7".toList ∧
      Writable tangled ∧ parse (written ⟨true, false, false⟩ tangled) = .ok tangled := by
  have hsum : Writable (.binary .add (.literal (.int 5)) (.literal (.int 6))) :=
    .binary (.int (by decide)) (.int (by decide))
  have hdifference : Writable (.binary .sub (.literal (.int 3))
      (.unary .neg (.unary .neg (.literal (.int 4))))) :=
    .binary (.int (by decide)) (.unary (.unary (.int (by decide))))
  have h : Writable tangled :=
    .binary (.unary (.binary (.int (by decide)) (.unary (.str _))))
      (.binary (.binary (.binary (.int (by decide)) (.int (by decide))) hdifference)
        (.binary hsum (.int (by decide))))
  exact ⟨by decide, h, parse_written _ h⟩

end Expr

end Cutscene
