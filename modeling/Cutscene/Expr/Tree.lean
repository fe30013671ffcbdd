import Cutscene.Value.Arithmetic

/-!
Condition expressions as trees, and their values. The calls of a condition have been answered
before it gets here, so a tree holds only literals and operators.

Correspondence (engine ↔ here):
  `Expr`, `UnaryOp`, `BinOp`            ↔ `Expr`, `UnaryOp`, `BinaryOp`
  `eval_expr`                           ↔ `Expr.eval`
  `eval_expr`, `and` and `or` cut short ↔ `BinaryOp.decided`
  `eval_binop`                          ↔ `BinaryOp.apply`
-/
namespace Cutscene

/-- An operator with one operand. -/
inductive UnaryOp where
  | neg | not
  deriving DecidableEq, Repr

/-- An operator with two operands. -/
inductive BinaryOp where
  | add | sub | mul | div | rem
  | eq | ne | lt | le | gt | ge
  | and | or
  deriving DecidableEq, Repr

/-- A condition expression. -/
inductive Expr where
  | literal (value : Value)
  | unary (op : UnaryOp) (operand : Expr)
  | binary (op : BinaryOp) (left right : Expr)

/-- The value of an operator whose operand is evaluated. -/
def UnaryOp.apply : UnaryOp → Value → Value
  | .neg, v => v.neg
  | .not, v => .ofBool !v.truth

/-- The value of an operator whose operands are both evaluated. -/
def BinaryOp.apply : BinaryOp → Value → Value → Except ExprError Value
  | .add, a, b => .ok (a.add b)
  | .sub, a, b => .ok (a.sub b)
  | .mul, a, b => .ok (a.mul b)
  | .div, a, b => a.div b
  | .rem, a, b => a.rem b
  | .eq, a, b => .ok (.ofBool (a.compare b == .eq))
  | .ne, a, b => .ok (.ofBool (a.compare b != .eq))
  | .lt, a, b => .ok (.ofBool (a.compare b == .lt))
  | .le, a, b => .ok (.ofBool (a.compare b != .gt))
  | .gt, a, b => .ok (.ofBool (a.compare b == .gt))
  | .ge, a, b => .ok (.ofBool (a.compare b != .lt))
  | .and, a, b => .ok (.ofBool (a.truth && b.truth))
  | .or, a, b => .ok (.ofBool (a.truth || b.truth))

/-- Whether the left operand alone decides the result, and as what. -/
def BinaryOp.decided : BinaryOp → Value → Option Value
  | .and, a => if a.truth then none else some (.ofBool false)
  | .or, a => if a.truth then some (.ofBool true) else none
  | _, _ => none

/-- The value of an expression. The right operand of `and` and `or` is looked at only if the left
one does not decide. -/
def Expr.eval : Expr → Except ExprError Value
  | .literal v => .ok v
  | .unary op e => do return op.apply (← e.eval)
  | .binary op l r => do
    let a ← l.eval
    match op.decided a with
    | some v => return v
    | none => op.apply a (← r.eval)

end Cutscene
