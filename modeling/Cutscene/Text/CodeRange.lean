/-!
Tables of code points. A character property is given as closed ranges in increasing order, and
`inRanges` looks a code point up in them.
-/
namespace Cutscene.Text

/-- A closed range of code points: the first and the last of it. -/
abbrev CodeRange := Nat × Nat

/-- Whether a code point lies in one of the ranges. The ranges are in increasing order, so the
search ends at the first range that begins above the code point. -/
def inRanges : List CodeRange → Nat → Bool
  | [], _ => false
  | (first, last) :: ranges, n =>
    if n < first then false else n ≤ last || inRanges ranges n

end Cutscene.Text
