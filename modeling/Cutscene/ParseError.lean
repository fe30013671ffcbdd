/-!
Why a script cannot be read. A text can have a fault, and that is what its reader answers: each cause
carries what its message quotes, and `ScriptFault.message` is the one place where the wording stands.
Besides, statements nest in one another, and a reading that goes deeper than the stack answers nothing
at all. That is no fault of the text, and it is kept apart from them.

Correspondence (engine ↔ here):
  `ParseError`                            ↔ `ScriptFault`
  `EXCERPT_LEN`                           ↔ `ScriptFault.excerptLength`
  `ParseError::unterminated`              ↔ `ScriptFault.unclosed`
  a `parse_statement` without a statement ↔ `ParseError`: a fault, or no answer at all
  a stack overflow in it                  ↔ `ParseError.tooDeep`
-/
namespace Cutscene

/-- A fault in a script's text. -/
inductive ScriptFault where
  /-- An opening delimiter whose closing one is missing, with the start of the text from there. -/
  | unterminated (opener closer : Char) (excerpt : List Char)
  /-- A range whose argument list, quoted, does not hold exactly two bounds. -/
  | rangeBounds (arguments : List Char)
  deriving DecidableEq, Repr

namespace ScriptFault

/-- How many characters of the faulty text a message quotes. -/
def excerptLength : Nat := 48

/-- The fault of an opening delimiter that is not closed in `rest`, the text that begins with it. -/
def unclosed (opener closer : Char) (rest : List Char) : ScriptFault :=
  .unterminated opener closer (rest.take excerptLength)

/-- The text that reports a fault. -/
def message : ScriptFault → String
  | .unterminated opener closer excerpt =>
    "unterminated `" ++ String.singleton opener ++ "` (expected `" ++ String.singleton closer ++
      "`) near `" ++ String.ofList excerpt ++ "`"
  | .rangeBounds arguments =>
    "range() needs two bounds, got `" ++ String.ofList arguments ++ "`"

end ScriptFault

/-- How a reading ends that gives nothing. -/
inductive ParseError where
  /-- The text has a fault, which is the answer. -/
  | fault (cause : ScriptFault)
  /-- There is no answer: the reading overflowed the stack, and the program ends with it. -/
  | tooDeep
  deriving DecidableEq, Repr

instance : Coe ScriptFault ParseError := ⟨.fault⟩

/-- The steps of a reading that only split texts have no other end than a fault. -/
instance : MonadLift (Except ScriptFault) (Except ParseError) := ⟨Except.mapError .fault⟩

namespace ParseError

/-- The fault of an opening delimiter, as the end of a reading. -/
@[match_pattern] abbrev unterminated (opener closer : Char) (excerpt : List Char) : ParseError :=
  .fault (.unterminated opener closer excerpt)

/-- The fault of a range, as the end of a reading. -/
@[match_pattern] abbrev rangeBounds (arguments : List Char) : ParseError :=
  .fault (.rangeBounds arguments)

/-- What is said of the end of a reading. -/
def message : ParseError → String
  | .fault cause => cause.message
  | .tooDeep => "stack overflow"

end ParseError

end Cutscene
