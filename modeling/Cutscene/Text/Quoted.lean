import Cutscene.Text.Printable

/-!
Texts and characters in quotes, as an error message shows them. A backslash, the quote in use and
the common controls have short escapes, and a character that could not be seen is written by its
number.

Correspondence (engine ↔ here):
  `{:?}` of a text      ↔ `quotedText`
  `{:?}` of a character ↔ `quotedChar`
-/
namespace Cutscene.Text

/-- The number of a character between braces, in hexadecimal. -/
def numbered (c : Char) : List Char :=
  '\\' :: 'u' :: '\x7b' :: Nat.toDigits 16 c.toNat ++ ['\x7d']

/-- A character as it stands inside the given quotes. -/
def escaped (quote c : Char) : List Char :=
  if c = '\\' || c = quote then ['\\', c]
  else if c = '\n' then ['\\', 'n']
  else if c = '\r' then ['\\', 'r']
  else if c = '\t' then ['\\', 't']
  else if c = '\x00' then ['\\', '0']
  else if isPrintable c then [c]
  else numbered c

/-- A text in double quotes. -/
def quotedText (text : List Char) : List Char := '"' :: text.flatMap (escaped '"') ++ ['"']

/-- A character in single quotes. -/
def quotedChar (c : Char) : List Char := '\'' :: escaped '\'' c ++ ['\'']

end Cutscene.Text
