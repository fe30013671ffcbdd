import Cutscene.Text.Blank

/-!
Comments. A comment begins at `//` outside a string literal and reaches to the end of its line;
the line break itself stays, so that a commented line does not swallow the one below it. A literal
ends at the first double quote that is not right behind a backslash.

Correspondence (engine ↔ here):
  `strip_comments`                     ↔ `stripComments`; `dropComments` is its loop
  `in_string` and the character before ↔ `Region`
-/
namespace Cutscene.Source

open Text

/-- Where in a source a character stands. -/
inductive Region where
  | code
  /-- Inside a string literal; `escaped` if the character before is a backslash. -/
  | literal (escaped : Bool)
  | comment
  deriving DecidableEq, Repr

/-- A source without its comments, for a text that begins in the given region. -/
def dropComments : Region → List Char → List Char
  | _, [] => []
  | .literal escaped, c :: rest =>
    c :: dropComments (if c = '"' && !escaped then .code else .literal (c = '\\')) rest
  | .comment, c :: rest =>
    if c = '\n' then c :: dropComments .code rest else dropComments .comment rest
  | .code, c :: rest =>
    if c = '/' && rest.head? = some '/' then dropComments .comment rest
    else c :: dropComments (if c = '"' then .literal false else .code) rest

/-- A source without comments and without blanks around it. -/
def stripComments (source : List Char) : List Char := trim (dropComments .code source)

end Cutscene.Source
