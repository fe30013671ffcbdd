import Mathlib
import Cutscene.Library

/-!
A library answers from the latest sources.

A library is asked to take in sources and files, to compile and to make scripts (`Library.Request`),
in any order, and a request may fail. The source that counts for a name is the one that was put under
it last (`Library.latest`), under that name or as a file with that stem. The library holds the latest
sources, and a block that it keeps for a name is what parsing the source under that name gives
(`Library.Current`). Taking a source in drops the block of its name, and compiling keeps a block only
as it was parsed, so every request keeps this (`current_perform`), and it holds after any
(`current_after`). `compile_answers_latest` reads off what that means for those who ask.
-/
namespace Cutscene

/-- What can be asked of a library. A file comes with what reading it gave. -/
inductive Library.Request where
  | add (name source : String)
  | addFile (path : String) (content : Except FileFault String)
  | compile (name : String)
  | instantiate (name : String)

namespace Library

/-- The name and the source that a request puts into the library. -/
def Request.source? : Request → Option (String × String)
  | .add name source => some (name, source)
  | .addFile path (.ok source) => some (Path.stem path, source)
  | _ => none

/-- The library after a request. -/
def perform (library : Library) : Request → Library
  | .add name source => library.add name source
  | .addFile path content =>
    match library.addFile path content with
    | .ok (_, next) => next
    | .error _ => library
  | .compile name => (library.compile name).state
  | .instantiate name => (library.instantiate name).state

/-- The library after requests, empty before the first. -/
def after (requests : List Request) : Library := requests.foldl perform {}

/-! ## The latest source -/

/-- The source that requests put under a name last. -/
def latest (name : String) (requests : List Request) : Option String :=
  (requests.reverse.filterMap Request.source?).lookup name

theorem latest_of_none {request : Request} (h : request.source? = none) (name : String)
    (requests : List Request) : latest name (requests ++ [request]) = latest name requests := by
  simp [latest, h]

theorem latest_of_some {request : Request} {other source : String}
    (h : request.source? = some (other, source)) (name : String) (requests : List Request) :
    latest name (requests ++ [request]) =
      if name = other then some source else latest name requests := by
  by_cases hname : name = other
  · simp [latest, h, hname]
  · simp [latest, h, hname, List.lookup_cons, beq_false_of_ne hname]

theorem latest_eq_none_iff {name : String} {requests : List Request} :
    latest name requests = none ↔
      ∀ request ∈ requests, ∀ source, request.source? ≠ some (name, source) := by
  simp only [latest, List.lookup_eq_none_iff, List.mem_filterMap, List.mem_reverse]
  constructor
  · intro h request hmem source hsource
    have hne := h (name, source) ⟨request, hmem, hsource⟩
    simp at hne
  · rintro h ⟨other, source⟩ ⟨request, hmem, hsource⟩
    apply bne_iff_ne.mpr
    intro heq
    exact h request hmem source (by rw [hsource, heq])

/-! ## What compiling does -/

/-- What a library without blocks of its own says of a name, from the source under it. -/
def answer (name : String) : Option String → Except LibraryError Block
  | none => .error (.unknown name)
  | some source => (Block.parse source.toList).mapError (.parse name)

theorem answer_eq_unknown_iff {name : String} {source : Option String} :
    answer name source = .error (.unknown name) ↔ source = none := by
  cases source with
  | none => simp [answer]
  | some source => cases h : Block.parse source.toList <;> simp [answer, h, Except.mapError]

section Compile
variable {library : Library} {name : String}

/-- **What compiling can do.** It gives the block that is kept, or the answer for the source; of the
library it changes nothing but to keep a block that it has just parsed. -/
theorem compile_cases (library : Library) (name : String) :
    (∃ block, library.compiled.find? name = some block ∧
      (library.compile name).result = .ok block ∧ (library.compile name).state = library) ∨
    ((library.compile name).result = answer name (library.sources.find? name) ∧
      ((library.compile name).state = library ∨ ∃ source block,
        library.sources.find? name = some source ∧ Block.parse source.toList = .ok block ∧
        (library.compile name).result = .ok block ∧ (library.compile name).state =
          { library with compiled := library.compiled.insert name block })) := by
  unfold compile
  split
  · next block hkept => exact Or.inl ⟨block, hkept, rfl, rfl⟩
  · next hsource => exact Or.inr ⟨by rw [hsource]; rfl, Or.inl rfl⟩
  · next source _ hsource =>
    rw [hsource]
    refine Or.inr ?_
    split
    · next e hparse => exact ⟨by simp [answer, hparse, Except.mapError], Or.inl rfl⟩
    · next block hparse =>
      exact ⟨by simp [answer, hparse, Except.mapError], Or.inr ⟨source, block, rfl, hparse, rfl, rfl⟩⟩

/-- Compiling that fails changes nothing. -/
theorem state_of_compile_error {error : LibraryError}
    (h : (library.compile name).result = .error error) :
    (library.compile name).state = library := by
  rcases compile_cases library name with ⟨_, -, -, hstate⟩ | ⟨-, hstate | ⟨_, _, -, -, hok, -⟩⟩
  · exact hstate
  · exact hstate
  · cases h.symm.trans hok

end Compile

/-! ## Every library -/

/-- The library holds the latest sources, and each block that it keeps is parsed from the source under
its name. -/
structure Current (requests : List Request) (library : Library) : Prop where
  sources : ∀ name, library.sources.find? name = latest name requests
  compiled : ∀ name block, library.compiled.find? name = some block → ∃ source,
    library.sources.find? name = some source ∧ Block.parse source.toList = .ok block

section Current
variable {requests : List Request} {library : Library}

/-- A source replaces the one that was there, and the block of its name goes with that one. -/
theorem current_add (h : library.Current requests) {request : Request} {name source : String}
    (hsource : request.source? = some (name, source)) :
    (library.add name source).Current (requests ++ [request]) where
  sources := by
    intro other
    rw [latest_of_some hsource]
    by_cases hother : other = name
    · rw [hother, if_pos rfl]
      exact Keyed.find?_insert_self name source library.sources
    · rw [if_neg hother, ← h.sources other]
      exact Keyed.find?_insert_of_ne hother source library.sources
  compiled := by
    intro other block hkept
    have hother : other ≠ name := by
      rintro rfl
      cases hkept.symm.trans (Keyed.find?_erase_self other library.compiled)
    have hbefore : library.compiled.find? other = some block :=
      (Keyed.find?_erase_of_ne hother library.compiled).symm.trans hkept
    obtain ⟨text, htext, hparse⟩ := h.compiled other block hbefore
    exact ⟨text, (Keyed.find?_insert_of_ne hother source library.sources).trans htext, hparse⟩

/-- Compiling keeps at most the block of a source that is there. -/
theorem current_compile (h : library.Current requests) {request : Request}
    (hsource : request.source? = none) (name : String) :
    (library.compile name).state.Current (requests ++ [request]) := by
  have hsame : library.Current (requests ++ [request]) :=
    ⟨fun other => (h.sources other).trans (latest_of_none hsource other requests).symm, h.compiled⟩
  rcases compile_cases library name with
    ⟨_, -, -, hstate⟩ | ⟨-, hstate | ⟨source, block, htext, hparse, -, hstate⟩⟩
  · rw [hstate]
    exact hsame
  · rw [hstate]
    exact hsame
  · rw [hstate]
    refine ⟨hsame.sources, ?_⟩
    intro other kept hkept
    by_cases hother : other = name
    · subst hother
      cases (Keyed.find?_insert_self other block library.compiled).symm.trans hkept
      exact ⟨source, htext, hparse⟩
    · exact hsame.compiled other kept
        ((Keyed.find?_insert_of_ne hother block library.compiled).symm.trans hkept)

/-- **Every request keeps a library current**, whether it fails or not. -/
theorem current_perform (h : library.Current requests) (request : Request) :
    (library.perform request).Current (requests ++ [request]) := by
  cases request with
  | add name source => exact current_add h rfl
  | addFile path content =>
    cases content with
    | ok source => exact current_add h rfl
    | error fault =>
      exact ⟨fun other => (h.sources other).trans (latest_of_none rfl other requests).symm, h.compiled⟩
  | compile name => exact current_compile h rfl name
  | instantiate name => exact current_compile h rfl name

/-- The induction is on the requests still to come. -/
theorem current_foldl (h : library.Current requests) (more : List Request) :
    (more.foldl perform library).Current (requests ++ more) := by
  induction more generalizing requests library with
  | nil =>
    rw [List.append_nil]
    exact h
  | cons request more ih =>
    rw [← List.singleton_append, ← List.append_assoc]
    exact ih (current_perform h request)

theorem current_after (requests : List Request) : (after requests).Current requests := by
  have hempty : Library.Current [] {} := by
    refine ⟨fun _ => rfl, ?_⟩
    intro name block hkept
    cases hkept
  exact current_foldl hempty requests

/-- A library that is current answers as the sources in it say. -/
theorem Current.compile_result (h : library.Current requests) (name : String) :
    (library.compile name).result = answer name (latest name requests) := by
  rw [← h.sources name]
  rcases compile_cases library name with ⟨block, hkept, hresult, -⟩ | ⟨hresult, -⟩
  · obtain ⟨source, hsource, hparse⟩ := h.compiled name block hkept
    rw [hresult, hsource, answer, hparse]
    rfl
  · exact hresult

end Current

/-- **A library answers from the latest sources.** After any requests, failed ones among them, a block
is kept for a name only if there is a source under it; that source is the latest, and the block is what
parsing it gives. Compiling a name therefore gives what parsing its latest source gives now, the block
or the error of that name, and an unknown name is just one under which nothing was ever put; a script is
a fresh run of that block. A request that fails leaves the sources and the blocks as they are. -/
theorem compile_answers_latest (requests : List Request) (name : String) :
    (∀ block, (after requests).compiled.find? name = some block → ∃ source,
      (after requests).sources.find? name = some source ∧ latest name requests = some source ∧
      Block.parse source.toList = .ok block) ∧
    ((after requests).compile name).result = answer name (latest name requests) ∧
    ((after requests).instantiate name).result =
      (answer name (latest name requests)).map Script.fresh ∧
    (((after requests).compile name).result = .error (.unknown name) ↔
      ∀ request ∈ requests, ∀ source, request.source? ≠ some (name, source)) ∧
    (∀ error, ((after requests).compile name).result = .error error →
      (after requests).perform (.compile name) = after requests) ∧
    (∀ error, ((after requests).instantiate name).result = .error error →
      (after requests).perform (.instantiate name) = after requests) ∧
    ∀ path fault, (after requests).addFile path (.error fault) = .error fault ∧
      (after requests).perform (.addFile path (.error fault)) = after requests := by
  have hcurrent := current_after requests
  have hresult := hcurrent.compile_result name
  refine ⟨?_, hresult, ?_, ?_, ?_, ?_, ?_⟩
  · intro block hkept
    obtain ⟨source, hsource, hparse⟩ := hcurrent.compiled name block hkept
    exact ⟨source, hsource, (hcurrent.sources name).symm.trans hsource, hparse⟩
  · rw [← hresult]
    rfl
  · rw [hresult, answer_eq_unknown_iff, latest_eq_none_iff]
  · intro error h
    exact state_of_compile_error h
  · intro error h
    -- a script is made of what compiling gives, so it fails only where compiling does
    change ((after requests).compile name).result.map Script.fresh = .error error at h
    cases hcompile : ((after requests).compile name).result with
    | ok block =>
      rw [hcompile] at h
      cases h
    | error other => exact state_of_compile_error hcompile
  · intro path fault
    exact ⟨rfl, rfl⟩

/-- Two files with one stem, the first compiled before the second is read. -/
def twoScenes : List Request :=
  [.addFile "scenes/intro.cue" (.ok "a();"), .compile "intro", .addFile "old/intro.txt" (.ok "b(")]

/-- The first was compiled, its block is gone, and compiling reports what is wrong with the second. -/
theorem compile_answers_latest_twoScenes :
    (after (twoScenes.take 2)).isCompiled "intro" = true ∧
    (after twoScenes).isCompiled "intro" = false ∧
    ((after twoScenes).compile "intro").result =
      .error (.parse "intro" (.unterminated '(' ')' ['('])) := by
  have hfirst : (after (twoScenes.take 2)).isCompiled "intro" = true := by cbv
  have hdropped : (after twoScenes).isCompiled "intro" = false := by cbv
  have hlatest : latest "intro" twoScenes = some "b(" := by decide
  have hsecond : answer "intro" (some "b(") =
      .error (.parse "intro" (.unterminated '(' ')' ['('])) := by cbv
  have hresult := (compile_answers_latest twoScenes "intro").2.1
  rw [hlatest, hsecond] at hresult
  exact ⟨hfirst, hdropped, hresult⟩

end Library

end Cutscene
