import Cutscene.Number.Reader
import Cutscene.Number.Text
import Cutscene.Text.Blank
import Cutscene.Text.Numeric
import Cutscene.Text.Quoted

/-!
The tokens of conditions and object literals. Blanks separate tokens and are dropped. `tokenize`
reads any text: a character that begins no token is a token of its own, which the grammar refuses.
A text literal that is not closed reaches to the end.

Correspondence (engine ↔ here):
  `Token`                             ↔ `Token`, `Mark`
  `Lexer::read_number`, `take_digits` ↔ `readNumber`
  `Lexer::read_string`                ↔ `readString`
  `Lexer::read_ident`                 ↔ `nameToken`
  `Lexer::next_token`                 ↔ `readToken`
  `Lexer::tokenize`                   ↔ `tokenize`
-/
namespace Cutscene.Expr

open Text

/-- The signs and words with a fixed spelling. -/
inductive Mark where
  | plus | minus | star | slash | percent | bang
  | eq | ne | lt | le | gt | ge
  | and | or | not
  | colon | comma
  | leftParen | rightParen | leftBrace | rightBrace | leftBracket | rightBracket
  deriving DecidableEq, Repr

/-- What messages call a mark. -/
def Mark.name : Mark → String
  | .plus => "Plus"
  | .minus => "Minus"
  | .star => "Star"
  | .slash => "Slash"
  | .percent => "Percent"
  | .bang => "Bang"
  | .eq => "Eq"
  | .ne => "Ne"
  | .lt => "Lt"
  | .le => "Le"
  | .gt => "Gt"
  | .ge => "Ge"
  | .and => "And"
  | .or => "Or"
  | .not => "Not"
  | .colon => "Colon"
  | .comma => "Comma"
  | .leftParen => "LParen"
  | .rightParen => "RParen"
  | .leftBrace => "LBrace"
  | .rightBrace => "RBrace"
  | .leftBracket => "LBracket"
  | .rightBracket => "RBracket"

/-- A token. -/
inductive Token where
  | int (n : Int64)
  | real (x : Float)
  | str (s : String)
  | name (s : String)
  | mark (m : Mark)
  /-- A character that begins no token. -/
  | unknown (c : Char)

/-- What messages call a token. -/
def Token.describe : Token → String
  | .int n => "Int(" ++ Number.integerText n ++ ")"
  | .real x => "Float(" ++ Number.tokenText x ++ ")"
  | .str s => "Str(" ++ String.ofList (quotedText s.toList) ++ ")"
  | .name s => "Ident(" ++ String.ofList (quotedText s.toList) ++ ")"
  | .mark m => m.name
  | .unknown c => "Unknown(" ++ String.ofList (quotedChar c) ++ ")"

/-! ## Numbers -/

/-- The digits before an exponent, with the point among them, and the text behind. A point belongs
to a number if a digit follows it. -/
def splitMantissa (text : List Char) : List Char × List Char :=
  let whole := text.takeWhile Char.isDigit
  match text.dropWhile Char.isDigit with
  | '.' :: d :: rest =>
    if d.isDigit then
      (whole ++ '.' :: (d :: rest).takeWhile Char.isDigit, (d :: rest).dropWhile Char.isDigit)
    else (whole, '.' :: d :: rest)
  | rest => (whole, rest)

/-- The exponent at the start of a text, and the text behind. The letter counts if a digit or a
sign follows it. -/
def splitExponent : List Char → List Char × List Char
  | e :: c :: rest =>
    if (e = 'e' || e = 'E') && (c.isDigit || c = '+' || c = '-') then
      ('e' :: c :: rest.takeWhile Char.isDigit, rest.dropWhile Char.isDigit)
    else ([], e :: c :: rest)
  | text => ([], text)

/-- The token of a number's spelling. An integer that does not fit is a real, and so is a spelling
with a point or an exponent; one that ends in a bare exponent is zero. -/
def numberToken (mantissa exponent : List Char) : Token :=
  let real := Token.real ((Number.readReal (mantissa ++ exponent)).getD 0)
  if mantissa.contains '.' || !exponent.isEmpty then real
  else
    match Number.readInteger mantissa with
    | some n => .int n
    | none => real

/-- The number at the start of a text, and the text behind. -/
def readNumber (text : List Char) : Token × List Char :=
  let (mantissa, rest) := splitMantissa text
  let (exponent, rest) := splitExponent rest
  (numberToken mantissa exponent, rest)

/-! ## Texts and names -/

/-- A text literal that was read: its characters, the text behind it, and whether it was closed. -/
structure Literal where
  text : List Char
  rest : List Char
  closed : Bool

/-- A literal with one more character before it. -/
def Literal.push (c : Char) (literal : Literal) : Literal :=
  ⟨c :: literal.text, literal.rest, literal.closed⟩

@[simp] theorem Literal.rest_push (c : Char) (literal : Literal) :
    (literal.push c).rest = literal.rest := rfl

/-- The character that a backslash and `c` stand for. -/
def unescape (c : Char) : Char :=
  if c = 'n' then '\n' else if c = 't' then '\t' else c

/-- Read a text literal from behind its opening quote. -/
def readString (quote : Char) : List Char → Literal
  | [] => ⟨[], [], false⟩
  | ['\\'] => ⟨[], [], false⟩
  | '\\' :: c :: rest => (readString quote rest).push (unescape c)
  | c :: rest =>
    if c = quote then ⟨[], rest, true⟩
    else (readString quote rest).push c

/-- The token of a name, which may be one of the words. -/
def nameToken (spelling : List Char) : Token :=
  match String.ofList spelling with
  | "and" => .mark .and
  | "or" => .mark .or
  | "not" => .mark .not
  | s => .name s

/-! ## Tokens -/

/-- The mark made of two characters, if they make one. -/
def pairMark : Char → Char → Option Mark
  | '!', '=' => some .ne
  | '&', '&' => some .and
  | '|', '|' => some .or
  | '<', '=' => some .le
  | '>', '=' => some .ge
  | '=', '=' => some .eq
  | _, _ => none

/-- The mark made of one character, if it makes one. -/
def singleMark : Char → Option Mark
  | '+' => some .plus
  | '-' => some .minus
  | '*' => some .star
  | '/' => some .slash
  | '%' => some .percent
  | '!' => some .bang
  | '<' => some .lt
  | '>' => some .gt
  | ':' => some .colon
  | ',' => some .comma
  | '(' => some .leftParen
  | ')' => some .rightParen
  | '\x7b' => some .leftBrace
  | '\x7d' => some .rightBrace
  | '[' => some .leftBracket
  | ']' => some .rightBracket
  | _ => none

/-- The mark at the start of a text, or the character there, and the text behind. Of two marks the
longer one counts. -/
def readMark (c : Char) (rest : List Char) : Token × List Char :=
  match rest.head?.bind (pairMark c) with
  | some m => (.mark m, rest.tail)
  | none =>
    match singleMark c with
    | some m => (.mark m, rest)
    | none => (.unknown c, rest)

/-- The token that begins with the character `c`, and the text behind. -/
def readToken (c : Char) (rest : List Char) : Token × List Char :=
  if c.isDigit || (c = '.' && rest.head?.any Char.isDigit) then readNumber (c :: rest)
  else if c = '"' || c = '\'' then
    let literal := readString c rest
    (.str (String.ofList literal.text), literal.rest)
  else if isAlphabetic c || c = '_' then
    (nameToken (c :: rest.takeWhile isNameChar), rest.dropWhile isNameChar)
  else readMark c rest

/-! ## Every token takes a character -/

theorem length_dropWhile_le (p : Char → Bool) (text : List Char) :
    (text.dropWhile p).length ≤ text.length :=
  (List.dropWhile_sublist p).length_le

theorem splitExponent_length_le (text : List Char) :
    (splitExponent text).2.length ≤ text.length := by
  unfold splitExponent
  split
  · rename_i e c rest
    have hle := length_dropWhile_le Char.isDigit rest
    split
    · simp only [List.length_cons]
      omega
    · exact Nat.le_refl _
  · simp

theorem splitMantissa_length_le (c : Char) (rest : List Char)
    (h : c.isDigit || (c = '.' && rest.head?.any Char.isDigit)) :
    (splitMantissa (c :: rest)).2.length ≤ rest.length := by
  unfold splitMantissa
  by_cases hc : c.isDigit
  · have hdrop : (c :: rest).dropWhile Char.isDigit = rest.dropWhile Char.isDigit := by simp [hc]
    have hle := length_dropWhile_le Char.isDigit rest
    rw [hdrop]
    split
    · rename_i d tail heq
      rw [heq] at hle
      have := length_dropWhile_le Char.isDigit (d :: tail)
      simp only [List.length_cons] at hle this
      split <;> simp only [List.length_cons] <;> omega
    · exact hle
  · match rest, h with
    | [], h => simp [hc] at h
    | d :: tail, h =>
      have hdot : c = '.' ∧ d.isDigit = true := by simpa [hc] using h
      have hdrop : (c :: d :: tail).dropWhile Char.isDigit = '.' :: d :: tail := by
        simp [hdot.1]
      rw [hdrop]
      simp only [hdot.2, if_true]
      exact length_dropWhile_le _ _

theorem readNumber_length_le (c : Char) (rest : List Char)
    (h : c.isDigit || (c = '.' && rest.head?.any Char.isDigit)) :
    (readNumber (c :: rest)).2.length ≤ rest.length :=
  Nat.le_trans (splitExponent_length_le (splitMantissa (c :: rest)).2)
    (splitMantissa_length_le c rest h)

theorem readString_length_le (quote : Char) (text : List Char) :
    (readString quote text).rest.length ≤ text.length := by
  fun_induction readString quote text <;> simp_all <;> omega

theorem readMark_length_le (c : Char) (rest : List Char) :
    (readMark c rest).2.length ≤ rest.length := by
  unfold readMark
  split
  · simp
  · split <;> exact Nat.le_refl _

theorem readToken_length_le (c : Char) (rest : List Char) :
    (readToken c rest).2.length ≤ rest.length := by
  unfold readToken
  split
  · rename_i h
    exact readNumber_length_le c rest (by simpa using h)
  · split
    · exact readString_length_le c rest
    · split
      · exact length_dropWhile_le _ _
      · exact readMark_length_le c rest

/-- The tokens of a text. -/
def tokenize (text : List Char) : List Token :=
  match _h : trimStart text with
  | [] => []
  | c :: rest => (readToken c rest).1 :: tokenize (readToken c rest).2
termination_by text.length
decreasing_by
  have hle := length_dropWhile_le isBlank text
  have hlt := readToken_length_le c rest
  rw [trimStart] at _h
  rw [_h] at hle
  simp only [List.length_cons] at hle
  omega

end Cutscene.Expr
