import Cutscene.Text.CodeRange

/-!
Blanks: the code points with the Unicode property `White_Space`, and cutting them off the ends of
a text.

Correspondence (engine ↔ here):
  `char::is_whitespace`, the class `\s` ↔ `isBlank`
  `str::trim`                           ↔ `trim`
-/
namespace Cutscene.Text

/-- The ranges of the property `White_Space`, in increasing order. -/
def blankRanges : List CodeRange :=
  [(0x9, 0xD), (0x20, 0x20), (0x85, 0x85), (0xA0, 0xA0), (0x1680, 0x1680), (0x2000, 0x200A),
    (0x2028, 0x2029), (0x202F, 0x202F), (0x205F, 0x205F), (0x3000, 0x3000)]

/-- Whether a character is a blank. -/
def isBlank (c : Char) : Bool := inRanges blankRanges c.toNat

/-- Most of the printable characters of ASCII are no blanks. -/
theorem toNat_of_isBlank {c : Char} (h : isBlank c = true) : c.toNat < 0x24 ∨ 0x80 ≤ c.toNat := by
  simp only [isBlank, blankRanges, inRanges] at h
  grind

/-- A text without the blanks at its start. -/
def trimStart (text : List Char) : List Char := text.dropWhile isBlank

/-- A text without the blanks at its end. -/
def trimEnd (text : List Char) : List Char := (text.reverse.dropWhile isBlank).reverse

/-- A text without the blanks at both ends. -/
def trim (text : List Char) : List Char := trimEnd (trimStart text)

end Cutscene.Text
