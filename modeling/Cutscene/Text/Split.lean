/-!
Cutting a text at a character and dropping characters by their size in bytes.

Correspondence (engine ↔ here):
  `str::split` at a character ↔ `splitOn`
  `str::split_once`           ↔ `splitOnce`
  a byte offset into a text   ↔ `byteSize`, `dropBytes`
-/
namespace Cutscene.Text

/-- The parts of a text between the places where `mark` stands. There is always at least one. -/
def splitOn (mark : Char) : List Char → List (List Char)
  | [] => [[]]
  | c :: rest =>
    if c = mark then [] :: splitOn mark rest
    else
      match splitOn mark rest with
      | [] => [[c]]
      | part :: parts => (c :: part) :: parts

/-- The part before the first `mark` and the part after it, if there is a `mark`. -/
def splitOnce (mark : Char) : List Char → Option (List Char × List Char)
  | [] => none
  | c :: rest =>
    if c = mark then some ([], rest)
    else (splitOnce mark rest).map fun (before, after) => (c :: before, after)

/-- The size of a text in bytes, encoded as UTF-8. -/
def byteSize (text : List Char) : Nat := text.foldl (fun n c => n + c.utf8Size) 0

/-- A text without its first `n` bytes; a character that begins inside them is dropped whole. -/
def dropBytes : Nat → List Char → List Char
  | 0, text => text
  | _ + 1, [] => []
  | n + 1, c :: rest => dropBytes (n + 1 - c.utf8Size) rest

theorem byteSize_cons (c : Char) (text : List Char) :
    byteSize (c :: text) = c.utf8Size + byteSize text := by
  have hstart : ∀ (rest : List Char) (n : Nat),
      rest.foldl (fun size d => size + d.utf8Size) n = n + byteSize rest := by
    intro rest
    induction rest with
    | nil => intro n; rfl
    | cons d rest ih =>
      intro n
      rw [byteSize, List.foldl_cons, List.foldl_cons, ih, ih, Nat.zero_add, Nat.add_assoc]
  rw [byteSize, List.foldl_cons, hstart, Nat.zero_add]

theorem byteSize_append (a b : List Char) : byteSize (a ++ b) = byteSize a + byteSize b := by
  induction a with
  | nil => simp [byteSize]
  | cons c a ih => rw [List.cons_append, byteSize_cons, ih, byteSize_cons, Nat.add_assoc]

theorem byteSize_le_of_prefix {a b : List Char} (h : a <+: b) : byteSize a ≤ byteSize b := by
  obtain ⟨more, rfl⟩ := h
  rw [byteSize_append]
  exact Nat.le_add_right _ _

theorem byteSize_lt_of_prefix {a b : List Char} (h : a <+: b) (hne : a ≠ b) :
    byteSize a < byteSize b := by
  obtain ⟨more, rfl⟩ := h
  cases more with
  | nil => exact absurd (List.append_nil a).symm hne
  | cons c more =>
    have hpos := c.utf8Size_pos
    rw [byteSize_append, byteSize_cons]
    omega

/-- Dropping the bytes of the first part of a text leaves the second. -/
theorem dropBytes_append (a b : List Char) : dropBytes (byteSize a) (a ++ b) = b := by
  induction a with
  | nil => rw [List.nil_append, byteSize, List.foldl_nil, dropBytes]
  | cons c a ih =>
    have hpos := c.utf8Size_pos
    have hsize := byteSize_cons c a
    obtain ⟨n, hn⟩ : ∃ n, byteSize (c :: a) = n + 1 := ⟨byteSize (c :: a) - 1, by omega⟩
    have hrest : n + 1 - c.utf8Size = byteSize a := by
      rw [← hn, byteSize_cons, Nat.add_sub_cancel_left]
    rw [hn, List.cons_append, dropBytes, hrest, ih]

end Cutscene.Text
