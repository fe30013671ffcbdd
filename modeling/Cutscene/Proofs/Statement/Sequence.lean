import Cutscene.Proofs.Source.Sequence
import Cutscene.Proofs.Statement.Comparison

/-!
Reading sources one below the other.

A statement that was read is read to the same with more levels to go down: a reading follows another
when it gives all that the other gives (`Follows`), and this is a comparison, so reading with more levels
follows reading with fewer (`read_deeper`). So the fragments of two sources, joined with a semicolon on a
line between them, are read as they were in each source, and the statements of the second come behind
those of the first (`parse_joined`).
-/
namespace Cutscene

open Source Text

/-- The second reading gives all that the first gives. -/
def Follows {α : Type} (first second : Except ParseError α) : Prop :=
  ∀ result, first = .ok result → second = .ok result

theorem Follows.comparison : Comparison fun _ => Follows where
  split _ := fun _ hresult => hresult
  bind h hnext := by
    intro result hresult
    obtain ⟨value, hvalue, hrest⟩ := bind_eq_ok hresult
    rw [h value hvalue]
    exact hnext value hvalue result hrest

/-- **A statement that was read is read to the same with more levels.** -/
theorem read_deeper {depth deeper : Nat} (h : depth ≤ deeper) (fragment : List Char) :
    Follows (Statement.read depth fragment) (Statement.read deeper fragment) := by
  induction depth generalizing deeper fragment with
  | zero =>
    intro statement hread
    cases hread
  | succ depth ih =>
    obtain ⟨below, rfl⟩ : ∃ below, deeper = below + 1 := ⟨deeper - 1, by omega⟩
    have hbelow : depth ≤ below := by omega
    exact Follows.comparison.shapes fun shapes _ shape _ text _ => ih hbelow text

theorem nestingLimit_mono {a b : List Char} (h : a.length ≤ b.length) :
    nestingLimit a ≤ nestingLimit b := by
  rw [nestingLimit, nestingLimit, Nat.one_shiftLeft, Nat.one_shiftLeft]
  exact Nat.pow_le_pow_right (by decide) h

/-- What a source is read to, with as many levels as a longer source has. -/
theorem parse_deeper {source longer : List Char} (hlength : source.length ≤ longer.length)
    {block : Block} (h : Block.parse source = .ok block) :
    ∃ pieces, fragments source = .ok pieces ∧
      pieces.mapM (Statement.read (nestingLimit longer)) = .ok block := by
  obtain ⟨pieces, hpieces, hread⟩ := liftM_bind_eq_ok h
  exact ⟨pieces, hpieces,
    Follows.comparison.mapM (fun piece _ => read_deeper (nestingLimit_mono hlength) piece) block hread⟩

/-- **Sources are read one after the other.** Where two plain sources are read to blocks, the sources
with a line between them that holds a semicolon are read to the statements of the first and then those
of the second. -/
theorem parse_joined {a b : List Char} (ha : IsPlain a) (hb : IsPlain b) {first second : Block}
    (hfirst : Block.parse a = .ok first) (hsecond : Block.parse b = .ok second) :
    Block.parse (a ++ ['\n', ';', '\n'] ++ b) = .ok (first ++ second) := by
  have hjoined : a ++ ['\n', ';', '\n'] ++ b = joined a b := by simp [joined]
  have hlength : (joined a b).length = a.length + b.length + 3 := by
    simp [joined]
    omega
  have ha_le : a.length ≤ (joined a b).length := by omega
  have hb_le : b.length ≤ (joined a b).length := by omega
  obtain ⟨pieces, hpieces, hread⟩ := parse_deeper ha_le hfirst
  obtain ⟨others, hothers, hread'⟩ := parse_deeper hb_le hsecond
  rw [hjoined, Block.parse, readWith_eq (fragments_joined ha hb hpieces hothers), List.mapM_append,
    hread, hread']
  rfl

/-- A source with a closing brace in a literal, a closing parenthesis too many, and a quote and a
parenthesis in a comment at its end. -/
def openEnded : List Char := "if(x)\x7by(\"\x7d;\")\x7d) // \"(".toList

/-- A source that begins like another arm and has a closing brace too many. -/
def closingArm : List Char := "else\x7bz\x7d\x7d".toList

theorem parse_joined_openEnded :
    IsPlain openEnded ∧ IsPlain closingArm ∧
    Block.parse openEnded = .ok [[.conditional .ifArm [] "x"
      [[.method "y" [[.constant "\"\x7d;\""]] false]]], [.constant ")"]] ∧
    Block.parse closingArm = .ok [[.constant "else\x7bz\x7d"], [.constant "\x7d"]] ∧
    Block.parse (openEnded ++ ['\n', ';', '\n'] ++ closingArm) = .ok ([[.conditional .ifArm [] "x"
      [[.method "y" [[.constant "\"\x7d;\""]] false]]], [.constant ")"]] ++
        [[.constant "else\x7bz\x7d"], [.constant "\x7d"]]) := by
  have ha : IsPlain openEnded := by decide +kernel
  have hb : IsPlain closingArm := by decide +kernel
  have hsecond : Block.parse closingArm =
      .ok [[.constant "else\x7bz\x7d"], [.constant "\x7d"]] := by cbv
  have hfirst : Block.parse openEnded = .ok [[.conditional .ifArm [] "x"
      [[.method "y" [[.constant "\"\x7d;\""]] false]]], [.constant ")"]] := by cbv
  exact ⟨ha, hb, hfirst, hsecond, parse_joined ha hb hfirst hsecond⟩

end Cutscene
