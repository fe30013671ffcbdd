import Cutscene.Text.Split

/-!
Paired delimiters and where a pair closes. An opening delimiter inside the pair raises the depth,
a closing one lowers it, and a closing one right behind a backslash is ordinary text. When both
delimiters are the same character, as with quotes, nothing nests and the first closing one that is
not behind a backslash ends the span.

Correspondence (engine ↔ here):
  `find_close`                       ↔ `Delimiter.closeAt`; `closeFrom` is its loop
  the delimiters passed to `extract` ↔ `Delimiter`
-/
namespace Cutscene.Text

/-- Two characters that enclose a span of text. -/
structure Delimiter where
  opener : Char
  closer : Char
  deriving DecidableEq, Repr

namespace Delimiter

/-- The double quotes of a string literal. -/
def string : Delimiter := ⟨'"', '"'⟩

/-- The single quotes of a literal in a condition. -/
def quote : Delimiter := ⟨'\'', '\''⟩

/-- The parentheses of an argument list. -/
def parenthesis : Delimiter := ⟨'(', ')'⟩

/-- The braces of a block or an object literal. -/
def brace : Delimiter := ⟨'\x7b', '\x7d'⟩

/-- The number of characters before the closer that ends a span, for a text inside the span at
the given depth and behind the character `previous`. -/
def closeFrom (d : Delimiter) : Nat → Char → List Char → Option Nat
  | _, _, [] => none
  | depth, previous, c :: rest =>
    if c = d.closer then
      if previous = '\\' then (closeFrom d depth c rest).map (· + 1)
      else
        match depth with
        | 0 => some 0
        | outer + 1 => (closeFrom d outer c rest).map (· + 1)
    else if c = d.opener then (closeFrom d (depth + 1) c rest).map (· + 1)
    else (closeFrom d depth c rest).map (· + 1)

/-- The number of characters between an opener and the closer that balances it, where `body` is
the text behind the opener. -/
def close (d : Delimiter) (body : List Char) : Option Nat := closeFrom d 0 '\x00' body

/-- The byte offset of the closer that balances the opener at a byte offset of `text`. -/
def closeAt (d : Delimiter) (text : List Char) (offset : Nat) : Option Nat :=
  let start := offset + d.opener.utf8Size
  let body := dropBytes start text
  (d.close body).map fun n => start + byteSize (body.take n)

theorem closeAt_eq (d : Delimiter) (before body : List Char) :
    d.closeAt (before ++ d.opener :: body) (byteSize before) =
      (d.close body).map fun n => byteSize (before ++ d.opener :: body.take n) := by
  have hstart : byteSize before + d.opener.utf8Size = byteSize (before ++ [d.opener]) := by
    rw [byteSize_append, byteSize_cons]
    rfl
  have hbody : dropBytes (byteSize (before ++ [d.opener])) (before ++ d.opener :: body) = body := by
    have hdrop := dropBytes_append (before ++ [d.opener]) body
    rwa [← List.append_cons] at hdrop
  have hend : ∀ inside, byteSize (before ++ [d.opener]) + byteSize inside =
      byteSize (before ++ d.opener :: inside) := by
    intro inside
    rw [← byteSize_append, ← List.append_cons]
  simp only [closeAt, hstart, hbody, hend]

end Delimiter

end Cutscene.Text
