import Cutscene.Statement.Tree

/-!
The outline of a block: one line for each link, indented by two spaces for each level, with the
statements of a block numbered from zero.

Correspondence (engine ↔ here):
  `Block::dump`, `dump_block` ↔ `Block.outline`, `outlineBlock`
  `dump_statement`            ↔ `outlineStatement`
  `dump_link`                 ↔ `Link.outline`
-/
namespace Cutscene

/-- A line of an outline at a depth. -/
def outlineLine (depth : Nat) (text : String) : String :=
  String.ofList (List.replicate (2 * depth) ' ') ++ text ++ "\n"

mutual

/-- The lines of a link. -/
def Link.outline (depth : Nat) : Link → String
  | .method name params simultaneous =>
    outlineLine depth ("method " ++ (if simultaneous then "+" else "") ++ name) ++
      outlineParams depth params
  | .this => outlineLine depth "this"
  | .conditional arm params template body =>
    outlineLine depth (arm.name ++ " [" ++ template ++ "]") ++
      outlinePhrases depth 1 params ++ outlineBlock (depth + 1) 0 body
  | .each subject body =>
    outlineLine depth "each" ++ outlineStatement (depth + 2) subject ++
      outlineBlock (depth + 1) 0 body
  | .range low high body =>
    outlineLine depth "range" ++ outlineStatement (depth + 2) low ++
      outlineStatement (depth + 2) high ++ outlineBlock (depth + 1) 0 body
  | .constant text => outlineLine depth ("constant " ++ text)
  | .object text => outlineLine depth ("object " ++ text)

/-- The lines of a statement. -/
def outlineStatement (depth : Nat) : List Link → String
  | [] => ""
  | link :: links => link.outline depth ++ outlineStatement depth links

/-- The lines of statements numbered from an index on. -/
def outlineBlock (depth index : Nat) : List (List Link) → String
  | [] => ""
  | statement :: statements =>
    outlineLine depth ("[" ++ toString index ++ "]") ++ outlineStatement (depth + 1) statement ++
      outlineBlock depth (index + 1) statements

/-- The lines of the parameters of a call. -/
def outlineParams (depth : Nat) : List (List Link) → String
  | [] => ""
  | param :: params =>
    outlineLine (depth + 1) "param" ++ outlineStatement (depth + 2) param ++
      outlineParams depth params

/-- The lines of the calls in a condition, numbered from an index on. -/
def outlinePhrases (depth index : Nat) : List (List Link) → String
  | [] => ""
  | param :: params =>
    outlineLine (depth + 1) ("statement" ++ toString index) ++
      outlineStatement (depth + 2) param ++ outlinePhrases depth (index + 1) params

end

/-- The outline of a block. -/
def Block.outline (block : Block) : String := outlineBlock 0 0 block

end Cutscene
