import Cutscene.Expr.Grammar

/-!
Object literals: maps in braces, lists in brackets, numbers, texts and names. A comma may follow
the last entry. A name that is no keyword stands for its own text, and the last of several entries
under one key counts.

Correspondence (engine ↔ here):
  `Parser::parse_literal_value` ↔ `readValue`
  `Parser::parse_map`           ↔ `readEntries`
  `Parser::parse_list`          ↔ `readItems`
  `parse_literal`               ↔ `parseLiteral`
-/
namespace Cutscene.Expr

/-- The key that a token is. -/
def key : Token → Option String
  | .name k => some k
  | .str k => some k
  | .int n => some (Number.integerText n)
  | _ => none

mutual

/-- Read a value from the start of a row of tokens. -/
def readValue : Nat → List Token → Except ExprError (Value × List Token)
  | 0, _ => .error .tooDeep
  | fuel + 1, tokens =>
    match tokens with
    | .int n :: rest => .ok (.int n, rest)
    | .real x :: rest => .ok (.real x, rest)
    | .str s :: rest => .ok (.str s, rest)
    | .name s :: rest => .ok ((keyword s).getD (.str s), rest)
    | .mark .minus :: .int n :: rest => .ok (.int (-n), rest)
    | .mark .minus :: .real x :: rest => .ok (.real (-x), rest)
    | .mark .minus :: rest => .error (.expectedNumber rest.head?)
    | .mark .leftBrace :: rest => do
      let (entries, rest) ← readEntries fuel rest
      return (.map (Keyed.ofList entries), rest)
    | .mark .leftBracket :: rest => do
      let (items, rest) ← readItems fuel rest
      return (.list items, rest)
    | _ => .error (.unexpectedInLiteral tokens.head?)

/-- Read the entries of a map and its closing brace. -/
def readEntries : Nat → List Token → Except ExprError (List (String × Value) × List Token)
  | 0, _ => .error .tooDeep
  | _ + 1, .mark .rightBrace :: rest => .ok ([], rest)
  | fuel + 1, tokens =>
    match tokens.head?.bind key with
    | none => .error (.expectedKey tokens.head?)
    | some k =>
      match tokens.tail with
      | .mark .colon :: rest => do
        let (v, rest) ← readValue fuel rest
        match rest with
        | .mark .comma :: rest => do
          let (entries, rest) ← readEntries fuel rest
          return ((k, v) :: entries, rest)
        | .mark .rightBrace :: rest => return ([(k, v)], rest)
        | _ => throw .mapSeparator
      | _ => .error (.expectedColon k)

/-- Read the items of a list and its closing bracket. -/
def readItems : Nat → List Token → Except ExprError (List Value × List Token)
  | 0, _ => .error .tooDeep
  | _ + 1, .mark .rightBracket :: rest => .ok ([], rest)
  | fuel + 1, tokens => do
    let (v, rest) ← readValue fuel tokens
    match rest with
    | .mark .comma :: rest => do
      let (items, rest) ← readItems fuel rest
      return (v :: items, rest)
    | .mark .rightBracket :: rest => return ([v], rest)
    | _ => throw .listSeparator

end

/-- The object literal that a row of tokens is, with none left over. -/
def parseLiteralTokens (tokens : List Token) : Except ExprError Value := do
  let (v, rest) ← readValue (2 * tokens.length + 2) tokens
  match rest with
  | [] => return v
  | token :: _ => throw (.trailing token)

/-- The object literal that a text spells. -/
def parseLiteral (text : List Char) : Except ExprError Value := parseLiteralTokens (tokenize text)

end Cutscene.Expr
