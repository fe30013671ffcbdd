import Cutscene.Text.Numeric
import Cutscene.Text.Word

/-!
The calls in a condition. A condition is cut into plain text and phrases, where a phrase is a chain
of calls; the words `not`, `and` and `or` before a parenthesis are no calls. The template of a
condition has a numbered marker for each phrase. Joined again, the parts are the condition.

Correspondence (engine ↔ here):
  `call_head`                               ↔ `callHead`
  `chain_start`                             ↔ the receiver in `partsFrom`, `isReceiver`
  `chain_end`                               ↔ `splitChain`, `endsChain`
  `statement_marker`                        ↔ `marker`
  `parse_condition`, the phrases it lifts   ↔ `phrases`
  `parse_condition`, the template it leaves ↔ `template`
-/
namespace Cutscene.Condition

open Text

/-- A part of a condition. -/
inductive Part where
  | plain (text : List Char)
  | phrase (text : List Char)
  deriving DecidableEq, Repr

/-- The characters of a part. -/
def Part.text : Part → List Char
  | .plain text => text
  | .phrase text => text

/-- The phrase of a part that is one. -/
def Part.phrase? : Part → Option (List Char)
  | .plain _ => none
  | .phrase text => some text

/-- The head of a call: the text before its word, the word, and the text from the parenthesis. -/
structure CallHead where
  before : List Char
  word : List Char
  rest : List Char

/-- The first word that a parenthesis follows, for a text behind `before` and the started `word`. -/
def callHeadFrom (before word : List Char) : List Char → Option CallHead
  | [] => none
  | c :: rest =>
    if isWord c then callHeadFrom before (word ++ [c]) rest
    else if c = '(' && !word.isEmpty then some ⟨before, word, c :: rest⟩
    else callHeadFrom (before ++ word ++ [c]) [] rest

/-- The first word that a parenthesis follows. -/
def callHead (text : List Char) : Option CallHead := callHeadFrom [] [] text

/-- Whether a word connects conditions. -/
def isConnective (word : List Char) : Bool :=
  word = ['n', 'o', 't'] || word = ['a', 'n', 'd'] || word = ['o', 'r']

/-- The characters of the objects that a call is made on. -/
def isReceiver (c : Char) : Bool := isNameChar c || c = '.'

/-- The characters that end a chain outside parentheses. -/
def endsChain (c : Char) : Bool := [' ', '=', '!', '<', '>', '&', '|', '+', '-', '*', '/', '%'].contains c

/-- The chain of calls at the start of a text, at a depth of parentheses, and the text behind. -/
def splitChain : Nat → List Char → List Char × List Char
  | _, [] => ([], [])
  | depth, c :: rest =>
    if c = '(' then (splitChain (depth + 1) rest).map (c :: ·) id
    else if c = ')' then
      match depth with
      | 0 => ([], c :: rest)
      | outer + 1 => (splitChain outer rest).map (c :: ·) id
    else if depth = 0 && endsChain c then ([], c :: rest)
    else (splitChain depth rest).map (c :: ·) id

/-- The parts of a condition, for at most so many calls and connectives. -/
def partsFrom : Nat → List Char → List Part
  | 0, text => [.plain text]
  | more + 1, text =>
    match callHead text with
    | none => [.plain text]
    | some head =>
      if isConnective head.word then .plain (head.before ++ head.word) :: partsFrom more head.rest
      else
        let receiver := (head.before.reverse.takeWhile isReceiver).reverse
        let plain := (head.before.reverse.dropWhile isReceiver).reverse
        let chain := splitChain 0 (receiver ++ head.word ++ head.rest)
        .plain plain :: .phrase chain.1 :: partsFrom more chain.2

/-- The parts of a condition. Every call and every connective takes a character, so there are no
more of them than characters. -/
def parts (text : List Char) : List Part := partsFrom text.length text

/-- The marker of a phrase; phrases are numbered from one. -/
def marker (n : Nat) : List Char :=
  ['@', '^', 's', 't', 'a', 't', 'e', 'm', 'e', 'n', 't'] ++ Nat.toDigits 10 n ++ ['$', '@']

/-- Parts with markers for their phrases, numbered from `n` on. -/
def templateFrom (n : Nat) : List Part → List Char
  | [] => []
  | .plain text :: parts => text ++ templateFrom n parts
  | .phrase _ :: parts => marker n ++ templateFrom (n + 1) parts

/-- Parts with a marker for each phrase. -/
def template (parts : List Part) : List Char := templateFrom 1 parts

/-- The phrases among parts. -/
def phrases (parts : List Part) : List (List Char) := parts.filterMap Part.phrase?

end Cutscene.Condition
