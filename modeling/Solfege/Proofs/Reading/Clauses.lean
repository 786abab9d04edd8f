import Solfege.Proofs.Reading.Conduct
import Solfege.Reading.Statement

/-!
Contract: macros and movements, clause by clause.

Owns:
- what is read behind a parameter, behind the parameters of a macro, behind the tag of a
  movement, and behind the name that begins either of them;
- the proof that the grammar of statements reads these clauses.

Does not own: bodies.

A property of reading is proved of each clause by its name, and so no proof writes out again
what is read there.
-/

namespace Solfege.Reading

/-- Reads what stands behind a parameter: the end of the list, or a comma and further ones. -/
def behindParameters (further : List String → Step (List String)) (parameters : List String) :
    Step (List String) := do
  skipSpace
  if ← check .comma then
    let _ ← advance
    skipSpace
    if ← check .rightParen then
      let closing ← peek
      refuse (Diagnostic.syntaxAt closing (.trailingComma .parameters))
    else
      further parameters
  else
    let _ ← expect .rightParen .endOfParameter
    pure parameters

/-- A parameter that is there already is reported, and the list goes on without it. -/
theorem parametersFrom_eq (bound : Nat) (found : List String) :
    parametersFrom (bound + 1) found = (do
      skipSpace
      let written ← expect .word .parameter
      if found.contains written.text then
        report (Diagnostic.namingAt written (.repeatedParameter written.text))
        behindParameters (parametersFrom bound) found
      else
        behindParameters (parametersFrom bound) (found ++ [written.text])) := by
  refine bind_congr fun _ => bind_congr fun written => ?_
  cases found.contains written.text <;> rfl

/-- Reads a macro behind its name and its parameters. -/
def behindHead (name : Token) (parameters : List String) : Step Macro := do
  skipSpace
  let _ ← expect .equals (.equalsAfterMacro name)
  let body ← body
  pure ⟨name.text, parameters, body, name⟩

theorem macroFrom_eq (name : Token) :
    macroFrom name = (do
      if ← check .leftParen then
        let parameters ← parameterList
        behindHead name parameters
      else
        behindHead name []) := rfl

/-- Reads a movement behind its instrument and its tag. -/
def behindTag (instrument : Token) (tag : Option String) : Step Movement := do
  let _ ← expect .colon (.colonAfterMovement instrument)
  let expressions ← body
  pure ⟨instrument.text, tag, expressions, instrument⟩

theorem movementFrom_eq (instrument : Token) :
    movementFrom instrument = optionalString >>= behindTag instrument := rfl

/-- Reads a macro or a movement behind its name, in front of a token of the kind. -/
def behindName (name : Token) (kind : Token.Kind) : Step Statement :=
  if kind = .equals ∨ kind = .leftParen then do
    let definition ← within .definition (macroFrom name)
    pure (.definition definition)
  else if kind = .string ∨ kind = .colon then do
    let movement ← within .movement (movementFrom name)
    pure (.movement movement)
  else
    unexpected (.definitionAfter name)

theorem definitionStatement_eq :
    definitionStatement = (do
      let name ← advance
      skipSpace
      let behind ← peek
      behindName name behind.kind) := by
  refine bind_congr fun name => bind_congr fun _ => bind_congr fun behind => ?_
  cases behind.kind <;> rfl

end Solfege.Reading
