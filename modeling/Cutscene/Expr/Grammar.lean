import Cutscene.Expr.Tree

/-!
The grammar of condition expressions. From the loosest to the tightest level: `or`, `and`, `not`,
comparison, sum, product, sign, operand. The levels of binary operators group to the left. The
reader gives the tree and the tokens behind it; `parse` wants none behind.

Correspondence (engine ↔ here):
  `Parser::parse_or` to `Parser::parse_primary` ↔ `read` at a `Level`
  the loops of the binary levels                ↔ `readMore`
  `keyword_value`                               ↔ `keyword`
  `parse_expr`, `Parser::expect_end`            ↔ `parse`, `parseTokens`
  `eval_str`                                    ↔ `evalText`
  `eval_condition`                              ↔ `evalCondition`
-/
namespace Cutscene.Expr

/-- A level of the grammar. -/
inductive Level where
  | or | and | not | relational | additive | multiplicative | unary | primary
  deriving DecidableEq, Repr

/-- The level of the operands of a level. -/
def Level.tighter : Level → Level
  | .or => .and
  | .and => .not
  | .not => .relational
  | .relational => .additive
  | .additive => .multiplicative
  | .multiplicative => .unary
  | .unary => .primary
  | .primary => .primary

/-- The binary operator that a mark is at a level. -/
def Level.operator : Level → Mark → Option BinaryOp
  | .or, .or => some .or
  | .and, .and => some .and
  | .relational, .eq => some .eq
  | .relational, .ne => some .ne
  | .relational, .lt => some .lt
  | .relational, .le => some .le
  | .relational, .gt => some .gt
  | .relational, .ge => some .ge
  | .additive, .plus => some .add
  | .additive, .minus => some .sub
  | .multiplicative, .star => some .mul
  | .multiplicative, .slash => some .div
  | .multiplicative, .percent => some .rem
  | _, _ => none

/-- The binary operator that begins a row of tokens at a level. -/
def Level.leading (level : Level) : List Token → Option BinaryOp
  | .mark m :: _ => level.operator m
  | _ => none

/-- The value of a name that is a keyword. -/
def keyword : String → Option Value
  | "True" | "true" => some (.int 1)
  | "False" | "false" => some (.int 0)
  | "None" => some (.str "")
  | _ => none

/-- The operand that a single token is. -/
def operand : Token → Except ExprError Expr
  | .int n => .ok (.literal (.int n))
  | .real x => .ok (.literal (.real x))
  | .str s => .ok (.literal (.str s))
  | .name s =>
    match keyword s with
    | some v => .ok (.literal v)
    | none => .error (.unknownName s)
  | token => .error (.unexpected (some token))

mutual

/-- Read an expression of a level from the start of a row of tokens. -/
def read : Nat → Level → List Token → Except ExprError (Expr × List Token)
  | 0, _, _ => .error .tooDeep
  | fuel + 1, .not, tokens =>
    match tokens with
    | .mark .not :: rest => do
      let (e, rest) ← read fuel .not rest
      return (.unary .not e, rest)
    | _ => read fuel .relational tokens
  | fuel + 1, .unary, tokens =>
    match tokens with
    | .mark .minus :: rest => do
      let (e, rest) ← read fuel .unary rest
      return (.unary .neg e, rest)
    | .mark .bang :: rest => do
      let (e, rest) ← read fuel .unary rest
      return (.unary .not e, rest)
    | .mark .plus :: rest => read fuel .unary rest
    | _ => read fuel .primary tokens
  | fuel + 1, .primary, tokens =>
    match tokens with
    | .mark .leftParen :: rest => do
      let (e, rest) ← read fuel .or rest
      match rest with
      | .mark .rightParen :: rest => return (e, rest)
      | _ => throw .expectedParen
    | token :: rest => do return (← operand token, rest)
    | [] => .error (.unexpected none)
  | fuel + 1, level, tokens => do
    let (left, rest) ← read fuel level.tighter tokens
    readMore fuel level left rest

/-- Read further operands of a level of binary operators, behind the tree `left`. -/
def readMore : Nat → Level → Expr → List Token → Except ExprError (Expr × List Token)
  | 0, _, _, _ => .error .tooDeep
  | fuel + 1, level, left, tokens =>
    match level.leading tokens with
    | none => .ok (left, tokens)
    | some op => do
      let (right, rest) ← read fuel level.tighter tokens.tail
      readMore fuel level (.binary op left right) rest

end

/-- How deep reading a row of tokens goes at most: through every level once for each token. -/
def depthFor (tokens : List Token) : Nat := 10 * tokens.length + 10

/-- The expression that a row of tokens is, with none left over. -/
def parseTokens (tokens : List Token) : Except ExprError Expr := do
  let (e, rest) ← read (depthFor tokens) .or tokens
  match rest with
  | [] => return e
  | token :: _ => throw (.trailing token)

/-- The expression that a text spells. -/
def parse (text : List Char) : Except ExprError Expr := parseTokens (tokenize text)

/-- The value of the expression that a text spells. -/
def evalText (text : List Char) : Except ExprError Value := do (← parse text).eval

/-- The truth of the expression that a text spells. -/
def evalCondition (text : List Char) : Except ExprError Bool := do return (← evalText text).truth

end Cutscene.Expr
