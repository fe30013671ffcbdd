import Cutscene.Runner.Moment

/-!
The lines of a settings document, in the TOML format. Only what settings can hold is read: texts,
whole numbers, moments and one level of tables of texts. A document with anything else in it is not
one of settings, so it has no lines at all, just like one with a fault in its form.

A reader gives what it read and the text behind it.

Correspondence (engine ↔ here):
  `toml::from_str`, as far as `Config` accepts it ↔ `Document.lines`
-/
namespace Cutscene.Document

/-- The value of a pair. -/
inductive Scalar where
  | text (s : String)
  | number (n : Nat)
  | moment (m : Moment)
  | table (entries : List (String × String))

/-- A line: the head of a table, or a pair of a key and a value. A key may lead through tables. -/
inductive Line where
  | head (key : List String)
  | pair (key : List String) (value : Scalar)

/-! ## Blanks and ends of lines -/

/-- The blanks inside a line. -/
def isGap (c : Char) : Bool := c = ' ' || c = '\t'

/-- A text without the blanks at its start. -/
def skipGap (text : List Char) : List Char := text.dropWhile isGap

/-- Whether a character may stand for itself in a text or a comment: no control of ASCII but the
tab. -/
def isVisible (c : Char) : Bool := c = '\t' || (0x20 ≤ c.toNat && c.toNat ≠ 0x7F)

/-- The text behind a line break. -/
def readBreak : List Char → Option (List Char)
  | '\n' :: rest => some rest
  | '\r' :: '\n' :: rest => some rest
  | _ => none

/-- The text behind the end of a line, which may hold a comment. -/
def readLineEnd (text : List Char) : Option (List Char) :=
  let text := skipGap text
  let text := if text.head? = some '#' then text.dropWhile isVisible else text
  if text.isEmpty then some [] else readBreak text

/-! ## Texts -/

/-- The character that a backslash and `c` stand for. -/
def shortEscape : Char → Option Char
  | 'b' => some '\x08'
  | 't' => some '\t'
  | 'n' => some '\n'
  | 'f' => some '\x0c'
  | 'r' => some '\r'
  | '"' => some '"'
  | '\\' => some '\\'
  | _ => none

/-- The value of a hexadecimal digit. -/
def hexDigit (c : Char) : Option Nat :=
  if c.isDigit then some (c.toNat - '0'.toNat)
  else if 'a' ≤ c.toLower && c.toLower ≤ 'f' then some (c.toLower.toNat - 'a'.toNat + 10)
  else none

/-- The number that hexadecimal digits stand for. -/
def hexNumber (digits : List Char) : Option Nat :=
  digits.foldlM (fun n c => (hexDigit c).map (16 * n + ·)) 0

/-- The character of a number given in hexadecimal digits. -/
def hexChar (digits : List Char) : Option Char := do
  let n ← hexNumber digits
  if n.isValidChar then some (Char.ofNat n) else none

/-- A character before what a reader gave. -/
def push (c : Char) (read : Option (List Char × List Char)) : Option (List Char × List Char) :=
  read.map fun (text, rest) => (c :: text, rest)

/-- Read a text in double quotes from behind the first of them. -/
def readBasic : List Char → Option (List Char × List Char)
  | [] => none
  | '"' :: rest => some ([], rest)
  | '\\' :: 'u' :: a :: b :: c :: d :: rest => do
    push (← hexChar [a, b, c, d]) (readBasic rest)
  | '\\' :: 'U' :: a :: b :: c :: d :: e :: f :: g :: h :: rest => do
    push (← hexChar [a, b, c, d, e, f, g, h]) (readBasic rest)
  | '\\' :: c :: rest => do push (← shortEscape c) (readBasic rest)
  | c :: rest => if isVisible c && c ≠ '\\' then push c (readBasic rest) else none

/-- Read a text in single quotes from behind the first of them. -/
def readLiteral : List Char → Option (List Char × List Char)
  | [] => none
  | '\'' :: rest => some ([], rest)
  | c :: rest => if isVisible c then push c (readLiteral rest) else none

/-- A text without the blanks and line breaks at its start. A carriage return alone is no line
break. -/
def skipSpace : List Char → List Char
  | '\r' :: '\n' :: rest => skipSpace rest
  | c :: rest => if isGap c || c = '\n' then skipSpace rest else c :: rest
  | [] => []

/-- The text behind a backslash that ends a line, without the blanks that the next lines start
with. -/
def readContinuation (text : List Char) : Option (List Char) :=
  (readBreak (skipGap text)).map skipSpace

/-- Read a text over several lines in threefold double quotes, of at most so many characters. -/
def readBasicLines : Nat → List Char → Option (List Char × List Char)
  | 0, _ => none
  | more + 1, text =>
    match text with
    | '"' :: '"' :: '"' :: '"' :: '"' :: rest => some (['"', '"'], rest)
    | '"' :: '"' :: '"' :: '"' :: rest => some (['"'], rest)
    | '"' :: '"' :: '"' :: rest => some ([], rest)
    | '\\' :: 'u' :: a :: b :: c :: d :: rest => do
      push (← hexChar [a, b, c, d]) (readBasicLines more rest)
    | '\\' :: 'U' :: a :: b :: c :: d :: e :: f :: g :: h :: rest => do
      push (← hexChar [a, b, c, d, e, f, g, h]) (readBasicLines more rest)
    | '\\' :: c :: rest =>
      match shortEscape c with
      | some c => push c (readBasicLines more rest)
      | none => do readBasicLines more (← readContinuation (c :: rest))
    | '\n' :: rest => push '\n' (readBasicLines more rest)
    | '\r' :: '\n' :: rest => push '\n' (readBasicLines more rest)
    | c :: rest => if isVisible c && c ≠ '\\' then push c (readBasicLines more rest) else none
    | [] => none

/-- Read a text over several lines in threefold single quotes. -/
def readLiteralLines : List Char → Option (List Char × List Char)
  | [] => none
  | '\'' :: '\'' :: '\'' :: '\'' :: '\'' :: rest => some (['\'', '\''], rest)
  | '\'' :: '\'' :: '\'' :: '\'' :: rest => some (['\''], rest)
  | '\'' :: '\'' :: '\'' :: rest => some ([], rest)
  | '\n' :: rest => push '\n' (readLiteralLines rest)
  | '\r' :: '\n' :: rest => push '\n' (readLiteralLines rest)
  | c :: rest => if isVisible c then push c (readLiteralLines rest) else none

/-- A text over several lines without the line break right behind its opening quotes. -/
def skipFirstBreak (text : List Char) : List Char := (readBreak text).getD text

/-- Read a text in any of the four kinds of quotes. -/
def readText : List Char → Option (List Char × List Char)
  | '"' :: '"' :: '"' :: rest => readBasicLines (rest.length + 1) (skipFirstBreak rest)
  | '"' :: rest => readBasic rest
  | '\'' :: '\'' :: '\'' :: rest => readLiteralLines (skipFirstBreak rest)
  | '\'' :: rest => readLiteral rest
  | _ => none

/-! ## Numbers -/

/-- Whether underscores stand only between two other characters. -/
def underscoresBetween : List Char → Bool
  | [] => true
  | ['_'] => false
  | '_' :: '_' :: _ => false
  | _ :: rest => underscoresBetween rest

/-- The number that digits of a base stand for, with underscores between some of them. -/
def baseNumber (base : Nat) (digits : List Char) : Option Nat :=
  if digits.isEmpty || digits.head? = some '_' || !underscoresBetween digits then none
  else
    (digits.filter (· ≠ '_')).foldlM (fun n c => do
      let d ← hexDigit c
      if d < base then some (base * n + d) else none) 0

/-- The number that a spelling in base ten stands for; only zero starts with zero. -/
def decimalNumber (digits : List Char) : Option Nat :=
  if digits.head? = some '0' && digits.length ≠ 1 then none else baseNumber 10 digits

/-- The number that a spelling stands for, from zero up to the greatest of 64 bits with a sign. -/
def number (spelling : List Char) : Option Nat := do
  let n ← match spelling with
    | '0' :: 'x' :: digits => baseNumber 16 digits
    | '0' :: 'o' :: digits => baseNumber 8 digits
    | '0' :: 'b' :: digits => baseNumber 2 digits
    | '+' :: digits => decimalNumber digits
    | '-' :: digits => (decimalNumber digits).filter (· = 0)
    | digits => decimalNumber digits
  if (n : Int) ≤ Int64.maxValue.toInt then some n else none

/-- Whether a character may belong to the spelling of a number. -/
def isSpelling (c : Char) : Bool := c.isAlphanum || c = '_' || c = '+' || c = '-'

/-! ## Keys -/

/-- Whether a character may stand in a key without quotes. -/
def isBare (c : Char) : Bool := c.isAlphanum || c = '_' || c = '-'

/-- Read one part of a key. -/
def readKeyPart : List Char → Option (List Char × List Char)
  | '"' :: rest => readBasic rest
  | '\'' :: rest => readLiteral rest
  | text =>
    if text.head?.any isBare then some (text.takeWhile isBare, text.dropWhile isBare) else none

/-- Read a key of at most so many parts with points between them. -/
def readKey : Nat → List Char → Option (List String × List Char)
  | 0, _ => none
  | more + 1, text => do
    let (part, rest) ← readKeyPart (skipGap text)
    match skipGap rest with
    | '.' :: rest => do
      let (parts, rest) ← readKey more rest
      return (String.ofList part :: parts, rest)
    | rest => return ([String.ofList part], rest)

/-! ## Values and lines -/

/-- Read the entries of a table in braces, at most so many, from behind the opening brace. -/
def readEntries : Nat → List Char → Option (List (String × String) × List Char)
  | 0, _ => none
  | more + 1, text => do
    let (key, rest) ← readKeyPart (skipGap text)
    match skipGap rest with
    | '=' :: rest => do
      let (value, rest) ← readText (skipGap rest)
      let entry := (String.ofList key, String.ofList value)
      match skipGap rest with
      | ',' :: rest => do
        let (entries, rest) ← readEntries more rest
        return (entry :: entries, rest)
      | '\x7d' :: rest => return ([entry], rest)
      | _ => none
    | _ => none

/-- Read a value. -/
def readScalar : List Char → Option (Scalar × List Char)
  | '\x7b' :: rest =>
    match skipGap rest with
    | '\x7d' :: rest => some (.table [], rest)
    | rest => (readEntries rest.length rest).map fun (entries, rest) => (.table entries, rest)
  | text =>
    if text.head? = some '"' || text.head? = some '\'' then
      (readText text).map fun (s, rest) => (.text (String.ofList s), rest)
    else
      match Moment.read text with
      | some (m, rest) => some (.moment m, rest)
      | none =>
        (number (text.takeWhile isSpelling)).map fun n => (.number n, text.dropWhile isSpelling)

/-- Read a line that is not blank, without its end. -/
def readLine (text : List Char) : Option (Line × List Char) :=
  match text with
  | '[' :: rest => do
    let (key, rest) ← readKey rest.length rest
    match rest with
    | ']' :: rest => return (.head key, rest)
    | _ => none
  | _ => do
    let (key, rest) ← readKey text.length text
    match rest with
    | '=' :: rest => do
      let (value, rest) ← readScalar (skipGap rest)
      return (.pair key value, rest)
    | _ => none

/-- Read lines, at most so many, blank ones included. -/
def readLines : Nat → List Char → Option (List Line)
  | 0, _ => none
  | more + 1, text =>
    match skipGap text with
    | [] => some []
    | c :: rest =>
      if c = '#' || c = '\n' || c = '\r' then do readLines more (← readLineEnd (c :: rest))
      else do
        let (line, rest) ← readLine (c :: rest)
        let lines ← readLines more (← readLineEnd rest)
        return line :: lines

/-- The lines of a document, which may begin with a mark of its byte order. -/
def lines (text : List Char) : Option (List Line) :=
  let text := if text.head? = some '\ufeff' then text.drop 1 else text
  readLines (text.length + 1) text

end Cutscene.Document
