import Solfege.Reading.Expression
import Solfege.Score.Building

/-!
Contract: the grammar of statements, and the score that a list of tokens spells.

Owns:
- metadata, tracks, macros with their parameters, and movements with their tags;
- the sequence of statements, which goes on at the next one behind a problem;
- the track that a score has when it opens none.

Does not own: what is reported when definitions share a name.
-/

namespace Solfege

namespace Reading

/-- A statement as it is read, before it is added to the score. -/
inductive Statement where
  | metadata (entry : Metadata) (keyword : Token)
  | track (name : String)
  | definition (definition : Macro)
  | movement (movement : Movement)

/-! ### Metadata and tracks -/

/-- Reads metadata, a keyword, a colon and a string. -/
def metadataStatement (entry : String → Metadata) : Step Statement := do
  let keyword ← advance
  skipSpace
  let _ ← expect .colon (.colonAfter keyword)
  skipSpace
  let text ← stringValue (← expect .string (.textAfter keyword))
  pure (.metadata (entry text) keyword)

/-- The name of a track that is opened without one. -/
def unnamedTrack : String := "main"

/-- Reads a string that may be missing, and blanks behind it. -/
def optionalString : Step (Option String) := do
  if ← check .string then
    let text ← stringValue (← advance)
    skipSpace
    pure (some text)
  else
    pure none

def trackStatement : Step Statement := do
  let _ ← advance
  skipSpace
  let name ← optionalString
  let _ ← expect .colon .colonAfterTrack
  pure (.track (name.getD unnamedTrack))

/-! ### Macros -/

/-- Reads parameters up to the closing parenthesis, behind those already read. A
parameter that repeats an earlier one is reported and dropped. -/
def parametersFrom : Nat → List String → Step (List String)
  | 0, _ => abort .stepBound
  | bound + 1, found => do
      skipSpace
      let written ← expect .word .parameter
      if found.contains written.text then
        report (Diagnostic.namingAt written (.repeatedParameter written.text))
      let parameters :=
        if found.contains written.text then found else found ++ [written.text]
      skipSpace
      if ← check .comma then
        let _ ← advance
        skipSpace
        if ← check .rightParen then
          let closing ← peek
          refuse (Diagnostic.syntaxAt closing (.trailingComma .parameters))
        else
          parametersFrom bound parameters
      else
        let _ ← expect .rightParen .endOfParameter
        pure parameters

/-- Reads a parameter list from its opening parenthesis on. -/
def parameterList : Step (List String) := do
  let _ ← advance
  skipSpace
  if ← check .rightParen then
    let _ ← advance
    pure []
  else
    fun reading => parametersFrom (reading.rest.length + 1) [] reading

def macroFrom (name : Token) : Step Macro := do
  let parameters ←
    if ← check .leftParen then
      parameterList
    else
      pure []
  skipSpace
  let _ ← expect .equals (.equalsAfterMacro name)
  let body ← body
  pure ⟨name.text, parameters, body, name⟩

/-! ### Movements -/

def movementFrom (instrument : Token) : Step Movement := do
  let tag ← optionalString
  let _ ← expect .colon (.colonAfterMovement instrument)
  let expressions ← body
  pure ⟨instrument.text, tag, expressions, instrument⟩

/-- Reads a statement that begins with a name: a macro or a movement. -/
def definitionStatement : Step Statement := do
  let name ← advance
  skipSpace
  let behind ← peek
  match behind.kind with
  | .equals | .leftParen => do
      let definition ← within .definition (macroFrom name)
      pure (.definition definition)
  | .string | .colon => do
      let movement ← within .movement (movementFrom name)
      pure (.movement movement)
  | _ => unexpected (.definitionAfter name)

/-! ### Sequences of statements -/

def statement : Step Statement := do
  let first ← peek
  match first.kind with
  | .title => metadataStatement .title
  | .copyRight => metadataStatement .copyRight
  | .track => trackStatement
  | .word => definitionStatement
  | _ => unexpected .statement

/-- Checks that nothing stands behind metadata on its line. The other statements end
where what they hold ends. -/
def statementEnd : Statement → Step Unit
  | .metadata _ keyword => do
      skipSpace
      let behind ← peek
      if behind.kind.endsStatement then
        pure ()
      else
        unexpected (.endOfStatementAfter keyword)
  | _ => pure ()

/-- Adds a statement to a score and reports the problem that this makes. -/
def addStatement (score : Score) : Statement → Step Score
  | .metadata entry _ => pure (score.addMetadata entry)
  | .track name => pure (score.addTrack name)
  | .definition definition => do
      let (extended, problem) := score.addMacro definition
      if let some diagnostic := problem then report diagnostic
      pure extended
  | .movement movement => do
      let (extended, problem) := score.addMovement movement
      if let some diagnostic := problem then report diagnostic
      pure extended

/-- Whether a kind separates statements or may stand in front of one. -/
def separatesStatements : Token.Kind → Bool
  | .newline | .semicolon | .space => true
  | _ => false

/-- Whether a kind stands between statements; behind a problem the next one begins
there. -/
def isStatementBreak : Token.Kind → Bool
  | .newline | .semicolon => true
  | _ => false

/-- Reports a problem and skips to the end of the statement. -/
def skipStatement (diagnostic : Diagnostic) : Step Unit := do
  report diagnostic
  resumeAt isStatementBreak

/-- Reads one statement into a score. A statement that cannot be read is skipped. -/
def readStatement (score : Score) : Step Score := do
  match ← attempt statement with
  | .error diagnostic => do
      skipStatement diagnostic
      pure score
  | .ok statement => do
      let extended ← addStatement score statement
      match ← attempt (statementEnd statement) with
      | .error diagnostic => do
          skipStatement diagnostic
          pure extended
      | .ok () => pure extended

/-- Reads statements up to the end of the file into a score. -/
def statementsFrom : Nat → Score → Step Score
  | 0, _ => abort .stepBound
  | bound + 1, score => do
      skipping separatesStatements
      if ← check .endOfFile then
        pure score
      else
        statementsFrom bound (← readStatement score)

/-- Reads all statements. Afterwards the reader must be inside of nothing. -/
def statements (score : Score) : Step Score := do
  let filled ← fun reading => statementsFrom (reading.rest.length + 1) score reading
  fun reading =>
    match reading.contexts with
    | [] => .ok filled reading
    | context :: _ => abort (.contextLeftOpen context) reading

end Reading

namespace Score

/-- The track that movements belong to where no track is opened. -/
def defaultTrack : String := "global"

/-- The score that a list of tokens spells, with the problems that were found. An error
is a fault of the reader. -/
def ofTokens (tokens : List Token) (trackName : String) : Except Diagnostic Score :=
  let opened :=
    if tokens.any fun token => token.kind = .track then
      Score.empty
    else
      Score.empty.addTrack trackName
  match Reading.statements opened (Reading.ofTokens tokens) with
  | .ok score reading => .ok { score with diagnostics := reading.diagnostics }
  | .error (.recoverable diagnostic) _ => .error diagnostic
  | .error (.fatal diagnostic) _ => .error diagnostic

end Score

end Solfege
