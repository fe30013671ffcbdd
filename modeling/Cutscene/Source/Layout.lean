import Cutscene.Text.Blank
import Cutscene.Text.Pass

/-!
The layout of a source with its literals hidden. Lines are joined, tabs dropped, spaces squeezed
and commas tightened, and an `else` between two braces is given the condition that always holds,
so that it reads like the other arms.

Correspondence (engine ↔ here):
  `newline_runs`, `space_runs` ↔ `squeeze`
  `comma_spacing`              ↔ `tightenCommas`
  `normalise_whitespace`       ↔ `normalise`
  `else_brace`                 ↔ `conditionElse`
-/
namespace Cutscene.Source

open Text

/-- A text in which each run of a character is one such character. -/
def squeeze (mark : Char) : List Char → List Char
  | [] => []
  | c :: rest => if c = mark && rest.head? = some mark then squeeze mark rest else c :: squeeze mark rest

/-- A text without the blanks that follow a comma; `afterComma` if the text itself follows one. -/
def tightenFrom : Bool → List Char → List Char
  | _, [] => []
  | afterComma, c :: rest =>
    if afterComma && isBlank c then tightenFrom true rest else c :: tightenFrom (c = ',') rest

/-- A text without the blanks that follow a comma. -/
def tightenCommas (text : List Char) : List Char := tightenFrom false text

/-- A text on one line: an open end of a line is joined with the next line, and runs of spaces are
one space. -/
def normalise (text : List Char) : List Char :=
  let lines := squeeze '\n' (text.filter (· ≠ '\r'))
  let joined := replaceAll ['\n', ')'] [')'] (replaceAll ['(', '\n'] ['(']
    (replaceAll [',', '\n'] [','] (replaceAll ['.', '\n'] ['.'] lines)))
  tightenCommas (squeeze ' ' (joined.filter fun c => c ≠ '\t' && c ≠ '\n'))

/-- What an `else` between braces becomes. -/
def elseArm : List Char :=
  ['\x7d', ' ', 'e', 'l', 's', 'e', '(', '1', ')', ' ', '\x7b']

/-- The edit that gives a condition to an `else` between braces. -/
def conditioningElse : List Char → Option Edit
  | '\x7d' :: rest =>
    match trimStart rest with
    | 'e' :: 'l' :: 's' :: 'e' :: behind =>
      match trimStart behind with
      | '\x7b' :: body => some ⟨elseArm, rest.length + 1 - body.length⟩
      | _ => none
    | _ => none
  | _ => none

/-- A text in which every `else` between braces has a condition. -/
def conditionElse (text : List Char) : List Char := pass conditioningElse text

end Cutscene.Source
