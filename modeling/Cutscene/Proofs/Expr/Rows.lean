import Cutscene.Expr.Grammar

/-!
Rows of tokens and the trees that the grammar makes of them.

Reading takes tokens from the front of a row, and what it takes is what the tree is made of: the
literals of the tree are the operands taken, in their order, and every token taken is an operand, an
operator or a parenthesis (`spends_read`). So a text with any other token is no expression
(`admitted_of_parse`), and the value of a text comes from its operands alone (`literals_of_parse`).
A row of one operand, with or without a sign before it, is an expression (`parseTokens_operand`,
`parseTokens_minus`, `parseTokens_plus`).
-/
namespace Cutscene

/-- The literals of an expression, from left to right. -/
def Expr.literals : Expr → List Value
  | .literal v => [v]
  | .unary _ e => e.literals
  | .binary _ l r => l.literals ++ r.literals

namespace Expr

open Text

/-- The value of a token that is an operand. -/
def Token.literal? : Token → Option Value
  | .int n => some (.int n)
  | .real x => some (.real x)
  | .str s => some (.str s)
  | .name s => keyword s
  | .mark _ => none
  | .unknown _ => none

/-- Whether a mark belongs to object literals alone. -/
def Mark.isStructural : Mark → Bool
  | .colon | .comma | .leftBrace | .rightBrace | .leftBracket | .rightBracket => true
  | _ => false

/-- Whether a token may stand in an expression: as an operand, an operator or a parenthesis. -/
def Token.isAdmitted : Token → Bool
  | .mark m => !m.isStructural
  | t => t.literal?.isSome

/-! ## What reading takes -/

/-- Tokens taken from the front of a row up to `rest`: all of them may stand in an expression, and
their operands have these values. -/
def Spends (tokens : List Token) (values : List Value) (rest : List Token) : Prop :=
  ∃ used, tokens = used ++ rest ∧ (∀ t ∈ used, t.isAdmitted = true) ∧
    used.filterMap Token.literal? = values

theorem Spends.refl (tokens : List Token) : Spends tokens [] tokens :=
  ⟨[], rfl, by simp, rfl⟩

theorem Spends.trans {a b c : List Token} {v w : List Value} (h : Spends a v b)
    (h' : Spends b w c) : Spends a (v ++ w) c := by
  obtain ⟨used, rfl, hadmitted, rfl⟩ := h
  obtain ⟨used', rfl, hadmitted', rfl⟩ := h'
  refine ⟨used ++ used', by simp, ?_, by simp⟩
  intro t ht
  rcases List.mem_append.mp ht with ht | ht
  · exact hadmitted t ht
  · exact hadmitted' t ht

theorem Spends.one {t : Token} (h : t.isAdmitted = true) (rest : List Token) :
    Spends (t :: rest) t.literal?.toList rest := by
  refine ⟨[t], rfl, by simpa using h, ?_⟩
  cases ht : t.literal? <;> simp [ht]

/-- A mark before tokens that are taken. -/
theorem Spends.mark {m : Mark} (hm : m.isStructural = false) {tokens rest : List Token}
    {values : List Value} (h : Spends tokens values rest) :
    Spends (.mark m :: tokens) values rest :=
  (Spends.one (by simp [Token.isAdmitted, hm]) tokens).trans h

/-- An operator is a mark of expressions. -/
theorem Level.operator_mark {level : Level} {m : Mark} {op : BinaryOp}
    (h : level.operator m = some op) : m.isStructural = false := by
  cases level <;> cases m <;> first | rfl | cases h

theorem Level.leading_some {level : Level} {tokens : List Token} {op : BinaryOp}
    (h : level.leading tokens = some op) :
    ∃ m rest, tokens = .mark m :: rest ∧ m.isStructural = false := by
  cases tokens with
  | nil => cases h
  | cons t rest =>
    cases t with
    | mark m => exact ⟨m, rest, rfl, operator_mark h⟩
    | _ => cases h

theorem operand_ok {t : Token} {e : Expr} (h : operand t = .ok e) :
    ∃ v, t.literal? = some v ∧ e = .literal v := by
  cases t with
  | int n => cases h; exact ⟨_, rfl, rfl⟩
  | real x => cases h; exact ⟨_, rfl, rfl⟩
  | str s => cases h; exact ⟨_, rfl, rfl⟩
  | name s =>
    simp only [operand] at h
    cases hk : keyword s with
    | none => simp [hk] at h
    | some v =>
      rw [hk] at h
      cases h
      exact ⟨v, hk, rfl⟩
  | mark m => cases h
  | unknown c => cases h

/-- Reading with so much fuel takes what its tree is made of. -/
def ReadSpends (fuel : Nat) : Prop :=
  ∀ level tokens e rest, read fuel level tokens = .ok (e, rest) → Spends tokens e.literals rest

/-- Reading on behind a tree takes what is added to it. -/
def MoreSpends (fuel : Nat) : Prop :=
  ∀ level left tokens e rest, readMore fuel level left tokens = .ok (e, rest) →
    ∃ values, Spends tokens values rest ∧ e.literals = left.literals ++ values

section Levels
variable {fuel : Nat} {tokens rest : List Token} {e : Expr}

/-- A level of binary operators: its first operand, and then the operands behind. -/
theorem spends_binary (hread : ReadSpends fuel) (hmore : MoreSpends fuel) {level : Level}
    (h : (do let (left, rest) ← read fuel level.tighter tokens; readMore fuel level left rest) =
      Except.ok (e, rest)) : Spends tokens e.literals rest := by
  cases hleft : read fuel level.tighter tokens with
  | error fault => rw [hleft] at h; cases h
  | ok taken =>
    obtain ⟨left, mid⟩ := taken
    rw [hleft] at h
    obtain ⟨values, hvalues, heq⟩ := hmore level left mid e rest h
    rw [heq]
    exact (hread _ _ _ _ hleft).trans hvalues

/-- An operator with one operand, behind its mark. -/
theorem spends_prefixed (hread : ReadSpends fuel) {level : Level} {op : UnaryOp}
    (h : (do let (inner, rest) ← read fuel level tokens; return (.unary op inner, rest)) =
      Except.ok (e, rest)) : Spends tokens e.literals rest := by
  cases hinner : read fuel level tokens with
  | error fault => rw [hinner] at h; cases h
  | ok taken =>
    obtain ⟨inner, mid⟩ := taken
    rw [hinner] at h
    cases h
    exact hread _ _ inner _ hinner

theorem spends_not (hread : ReadSpends fuel)
    (h : read (fuel + 1) .not tokens = .ok (e, rest)) : Spends tokens e.literals rest := by
  unfold read at h
  split at h
  · exact (spends_prefixed hread h).mark rfl
  · exact hread _ _ _ _ h

theorem spends_unary (hread : ReadSpends fuel)
    (h : read (fuel + 1) .unary tokens = .ok (e, rest)) : Spends tokens e.literals rest := by
  unfold read at h
  split at h
  · exact (spends_prefixed hread h).mark rfl
  · exact (spends_prefixed hread h).mark rfl
  · exact (hread _ _ _ _ h).mark rfl
  · exact hread _ _ _ _ h

/-- An expression in parentheses, behind the opening one. -/
theorem spends_grouped (hread : ReadSpends fuel)
    (h : (do
      let (inner, rest) ← read fuel .or tokens
      match rest with
      | .mark .rightParen :: rest => return (inner, rest)
      | _ => throw .expectedParen) = Except.ok (e, rest)) : Spends tokens e.literals rest := by
  cases hinner : read fuel .or tokens with
  | error fault => rw [hinner] at h; cases h
  | ok taken =>
    obtain ⟨inner, mid⟩ := taken
    have hspends := hread _ _ _ _ hinner
    rw [hinner] at h
    change (match mid with
      | .mark .rightParen :: rest => Except.ok (inner, rest)
      | _ => Except.error ExprError.expectedParen) = _ at h
    split at h
    · cases h
      simpa using hspends.trans ((Spends.refl rest).mark (m := .rightParen) rfl)
    · cases h

theorem spends_primary (hread : ReadSpends fuel)
    (h : read (fuel + 1) .primary tokens = .ok (e, rest)) : Spends tokens e.literals rest := by
  unfold read at h
  split at h
  · exact (spends_grouped hread h).mark rfl
  · next t more _ =>
    cases hoperand : operand t with
    | error fault => rw [hoperand] at h; cases h
    | ok inner =>
      rw [hoperand] at h
      cases h
      obtain ⟨v, hv, rfl⟩ := operand_ok hoperand
      have hadmitted : t.isAdmitted = true := by
        cases t <;> simp_all [Token.isAdmitted, Token.literal?]
      simpa [hv, literals] using Spends.one hadmitted rest
  · cases h

theorem spends_more (hread : ReadSpends fuel) (hmore : MoreSpends fuel) :
    MoreSpends (fuel + 1) := by
  intro level left tokens e rest h
  rw [readMore] at h
  split at h
  · cases h
    exact ⟨[], Spends.refl _, by simp⟩
  · next op hop =>
    obtain ⟨m, behind, rfl, hm⟩ := Level.leading_some hop
    cases hright : read fuel level.tighter behind with
    | error fault =>
      simp only [List.tail_cons, hright] at h
      cases h
    | ok taken =>
      obtain ⟨right, mid⟩ := taken
      simp only [List.tail_cons, hright] at h
      obtain ⟨values, hvalues, heq⟩ := hmore level _ mid e rest h
      refine ⟨right.literals ++ values, ((hread _ _ _ _ hright).trans hvalues).mark hm, ?_⟩
      rw [heq, literals, List.append_assoc]

end Levels

/-- **What reading takes.** The tree is made of the operands taken, in their order. The induction is
on the fuel, over reading a level and reading on behind it together. -/
theorem spends_read (fuel : Nat) : ReadSpends fuel ∧ MoreSpends fuel := by
  induction fuel with
  | zero =>
    refine ⟨fun level tokens e rest h => ?_, fun level left tokens e rest h => ?_⟩
    · cases h
    · cases h
  | succ fuel ih =>
    obtain ⟨hread, hmore⟩ := ih
    refine ⟨fun level tokens e rest h => ?_, spends_more hread hmore⟩
    cases level with
    | not => exact spends_not hread h
    | unary => exact spends_unary hread h
    | primary => exact spends_primary hread h
    | or => exact spends_binary hread hmore h
    | and => exact spends_binary hread hmore h
    | relational => exact spends_binary hread hmore h
    | additive => exact spends_binary hread hmore h
    | multiplicative => exact spends_binary hread hmore h

theorem spends_parseTokens {tokens : List Token} {e : Expr} (h : parseTokens tokens = .ok e) :
    Spends tokens e.literals [] := by
  rw [parseTokens] at h
  cases hread : read (depthFor tokens) .or tokens with
  | error fault => rw [hread] at h; cases h
  | ok taken =>
    obtain ⟨inner, rest⟩ := taken
    rw [hread] at h
    cases rest with
    | nil =>
      cases h
      exact (spends_read _).1 _ _ _ _ hread
    | cons t rest => cases h

/-- An expression has no token but operands, operators and parentheses. -/
theorem admitted_of_parse {text : List Char} {e : Expr} (h : parse text = .ok e) :
    ∀ t ∈ tokenize text, t.isAdmitted = true := by
  obtain ⟨used, heq, hadmitted, -⟩ := spends_parseTokens h
  rwa [heq, List.append_nil]

/-- The literals of an expression are the operands of its text. -/
theorem literals_of_parse {text : List Char} {e : Expr} (h : parse text = .ok e) :
    e.literals = (tokenize text).filterMap Token.literal? := by
  obtain ⟨used, heq, -, hliterals⟩ := spends_parseTokens h
  rw [heq, List.append_nil, hliterals]

/-! ## Rows of one operand -/

theorem operand_of_literal {t : Token} {v : Value} (h : t.literal? = some v) :
    operand t = .ok (.literal v) := by
  cases t with
  | int n => cases h; rfl
  | real x => cases h; rfl
  | str s => cases h; rfl
  | name s =>
    have hk : keyword s = some v := h
    simp only [operand, hk]
  | mark m => cases h
  | unknown c => cases h

/-- An operand at the end of a row is read at the level of signs. -/
theorem read_unary_operand {t : Token} {v : Value} (h : t.literal? = some v) (fuel : Nat) :
    read (fuel + 2) .unary [t] = .ok (.literal v, []) := by
  have hoperand := operand_of_literal h
  cases t with
  | mark m => cases h
  | unknown c => cases h
  | int n => cases h; rfl
  | real x => cases h; rfl
  | str s => cases h; rfl
  | name s =>
    have hread : read (fuel + 2) .unary [.name s] =
        (do return (← operand (.name s), [])) := rfl
    rw [hread, hoperand]
    rfl

/-- What a level of binary operators reads of a row that its first operand takes up. -/
theorem read_alone {level : Level}
    (hlevel : level ∈ [Level.or, .and, .relational, .additive, .multiplicative])
    {tokens : List Token} {e : Expr} {fuel : Nat}
    (h : read (fuel + 1) level.tighter tokens = .ok (e, [])) :
    read (fuel + 2) level tokens = .ok (e, []) := by
  have hread : read (fuel + 2) level tokens =
      (do let (left, rest) ← read (fuel + 1) level.tighter tokens
          readMore (fuel + 1) level left rest) := by
    cases level <;> first | rfl | simp at hlevel
  rw [hread, h]
  rfl

/-- A row that the level of signs takes up is an expression. -/
theorem parseTokens_of_unary {tokens : List Token} {e : Expr}
    (h : ∀ fuel, read (fuel + 3) .unary tokens = .ok (e, []))
    (hnot : ∀ rest, tokens ≠ .mark .not :: rest) : parseTokens tokens = .ok e := by
  have hmultiplicative : ∀ fuel, read (fuel + 4) .multiplicative tokens = .ok (e, []) :=
    fun fuel => read_alone (by simp) (h fuel)
  have hadditive : ∀ fuel, read (fuel + 5) .additive tokens = .ok (e, []) :=
    fun fuel => read_alone (by simp) (hmultiplicative fuel)
  have hrelational : ∀ fuel, read (fuel + 6) .relational tokens = .ok (e, []) :=
    fun fuel => read_alone (by simp) (hadditive fuel)
  have hword : ∀ fuel, read (fuel + 7) .not tokens = .ok (e, []) := by
    intro fuel
    unfold read
    split
    · next rest => exact absurd rfl (hnot rest)
    · exact hrelational fuel
  have hand : ∀ fuel, read (fuel + 8) .and tokens = .ok (e, []) :=
    fun fuel => read_alone (by simp) (hword fuel)
  have hor : ∀ fuel, read (fuel + 9) .or tokens = .ok (e, []) :=
    fun fuel => read_alone (by simp) (hand fuel)
  have hdepth : depthFor tokens = 10 * tokens.length + 1 + 9 := rfl
  rw [parseTokens, hdepth, hor]
  rfl

theorem parseTokens_operand {t : Token} {v : Value} (h : t.literal? = some v) :
    parseTokens [t] = .ok (.literal v) := by
  refine parseTokens_of_unary (fun fuel => read_unary_operand h (fuel + 1)) ?_
  rintro rest heq
  cases heq
  cases h

theorem parseTokens_minus {t : Token} {v : Value} (h : t.literal? = some v) :
    parseTokens [.mark .minus, t] = .ok (.unary .neg (.literal v)) := by
  refine parseTokens_of_unary (fun fuel => ?_) (by simp)
  show (do let (e, rest) ← read (fuel + 2) .unary [t]; return (Expr.unary .neg e, rest)) = _
  rw [read_unary_operand h]
  rfl

theorem parseTokens_plus {t : Token} {v : Value} (h : t.literal? = some v) :
    parseTokens [.mark .plus, t] = .ok (.literal v) := by
  refine parseTokens_of_unary (fun fuel => ?_) (by simp)
  show read (fuel + 2) .unary [t] = _
  exact read_unary_operand h fuel

/-! ## The tokens of a text -/

theorem tokenize_nil : tokenize [] = [] := by
  rw [tokenize]
  rfl

theorem tokenize_blank {c : Char} (h : isBlank c = true) (rest : List Char) :
    tokenize (c :: rest) = tokenize rest := by
  have htrim : trimStart (c :: rest) = trimStart rest := by simp [trimStart, h]
  rw [tokenize, tokenize, htrim]

theorem tokenize_cons {c : Char} (h : isBlank c = false) (rest : List Char) :
    tokenize (c :: rest) = (readToken c rest).1 :: tokenize (readToken c rest).2 := by
  have htrim : trimStart (c :: rest) = c :: rest := by simp [trimStart, h]
  rw [tokenize]
  split
  · next hnil => rw [htrim] at hnil; cases hnil
  · next c' rest' hcons =>
    rw [htrim] at hcons
    cases hcons
    rfl

end Expr

end Cutscene
