import Cutscene.Expr.Token

/-!
Why a condition or an object literal has no value. Each cause carries the token or the text that
its message quotes; where the text ended too early there is no token.

Correspondence (engine ↔ here):
  what `parse_expr`, `parse_literal`, `eval_expr` refuse ↔ `ExprError`
  the texts of their errors                              ↔ `ExprError.message`
-/
namespace Cutscene

/-- A fault in a condition or an object literal. -/
inductive ExprError where
  /-- No operand begins here. -/
  | unexpected (found : Option Expr.Token)
  /-- The expression ends before this token. -/
  | trailing (found : Expr.Token)
  | unknownName (name : String)
  | expectedParen
  | divisionByZero
  | moduloByZero
  /-- No number behind a minus in an object literal. -/
  | expectedNumber (found : Option Expr.Token)
  /-- No value of an object literal begins here. -/
  | unexpectedInLiteral (found : Option Expr.Token)
  | expectedKey (found : Option Expr.Token)
  | expectedColon (key : String)
  | mapSeparator
  | listSeparator
  /-- Nested deeper than the reader follows. -/
  | tooDeep

/-- What messages call the token that was found, or the end of the text. -/
def ExprError.found : Option Expr.Token → String
  | some token => token.describe
  | none => "Eof"

/-- The text that reports a fault. -/
def ExprError.message : ExprError → String
  | .unexpected token => "unexpected token " ++ found token
  | .trailing token => "unexpected trailing token " ++ token.describe
  | .unknownName name => "unknown name `" ++ name ++ "`"
  | .expectedParen => "expected ')'"
  | .divisionByZero => "division by zero"
  | .moduloByZero => "modulo by zero"
  | .expectedNumber token => "expected number after '-', got " ++ found token
  | .unexpectedInLiteral token => "unexpected token " ++ found token ++ " in literal"
  | .expectedKey token => "expected map key, got " ++ found token
  | .expectedColon key => "expected ':' after key `" ++ key ++ "`"
  | .mapSeparator => "expected ',' or '\x7d' in map"
  | .listSeparator => "expected ',' or ']' in list"
  | .tooDeep => "nested too deeply"

end Cutscene
