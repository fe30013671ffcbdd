import Cutscene.Text.Delimiter

/-!
A text cut into pieces: characters that stand for themselves, and spans that a pair of delimiters
encloses. Joined again, the pieces are the text. Spans are outermost ones, found from left to
right, and nothing inside a span is cut further.

Correspondence (engine ↔ here):
  the scan in `extract`     ↔ `Delimiter.cut`; `unclosedText` where it fails
  the scan in `hide_quoted` ↔ `cutQuoted`
-/
namespace Cutscene.Text

/-- A part of a text that was cut at its delimited spans. -/
inductive Piece where
  /-- A character outside every span. -/
  | plain (c : Char)
  /-- A span with both of its delimiters. -/
  | span (text : List Char)
  /-- The text from an opening delimiter that is never closed to the end. -/
  | unclosed (text : List Char)
  deriving DecidableEq, Repr

/-- The characters of a piece. -/
def Piece.text : Piece → List Char
  | .plain c => [c]
  | .span text => text
  | .unclosed text => text

/-- What stands at a position of a text: a plain character, a span that goes on for so many
characters behind its first one, or an opening delimiter that is never closed. -/
inductive Sight where
  | plain
  | span (more : Nat)
  | unclosed

/-- Cut a text whose first `skip` characters belong to a span already cut, asking `look` what
stands at each position. -/
def cutFrom (look : Char → List Char → Sight) : Nat → List Char → List Piece
  | _, [] => []
  | skip + 1, _ :: rest => cutFrom look skip rest
  | 0, c :: rest =>
    match look c rest with
    | .plain => .plain c :: cutFrom look 0 rest
    | .span more => .span (c :: rest.take more) :: cutFrom look more rest
    | .unclosed => [.unclosed (c :: rest)]

/-- What stands at a position, when spans are those of a pair of delimiters. -/
def Delimiter.look (d : Delimiter) (c : Char) (rest : List Char) : Sight :=
  if c = d.opener then
    match d.close rest with
    | some n => .span (n + 1)
    | none => .unclosed
  else .plain

/-- A text cut at the outermost spans of a pair of delimiters. -/
def Delimiter.cut (d : Delimiter) (text : List Char) : List Piece := cutFrom d.look 0 text

/-- What stands at a position, when spans are literals in single quotes. A span that reaches
across a semicolon or a line break is no literal: its first quote is an apostrophe. -/
def lookQuoted (c : Char) (rest : List Char) : Sight :=
  if c = '\'' then
    match Delimiter.quote.close rest with
    | some n =>
      if (rest.take n).any fun x => x = ';' || x = '\n' then .plain else .span (n + 1)
    | none => .plain
  else .plain

/-- A text cut at its literals in single quotes. -/
def cutQuoted (text : List Char) : List Piece := cutFrom lookQuoted 0 text

/-- The text from the opening delimiter that is never closed, if the cutting met one. -/
def unclosedText : List Piece → Option (List Char)
  | [] => none
  | .unclosed text :: _ => some text
  | _ :: pieces => unclosedText pieces

end Cutscene.Text
