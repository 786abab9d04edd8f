import Solfege.Diagnostic

/-!
Contract: the state of a reader of tokens, and the steps that every reading is made of.

Owns:
- the tokens still to be read, behind which an end of file token always stands;
- the stack of constructs that the reader is inside of, and the balance of its pushes
  and pops;
- the problems reported so far, and the two ways to stop early;
- skipping, expecting, and resuming behind a problem.

Does not own: the grammar of scores. No step moves the reader backwards.
-/

namespace Solfege

/-- What a reader of tokens knows: the tokens to come, the token that closes them, the
constructs it is inside of (the innermost first) and the problems met so far. -/
structure Reading where
  rest : List Token
  last : Token
  contexts : List Reading.Context
  diagnostics : List Diagnostic
deriving Repr

namespace Reading

/-- Why a step stopped early. -/
inductive Halt where
  /-- The score is at fault; the list being read reports it and goes on. -/
  | recoverable (diagnostic : Diagnostic)
  /-- The reader is at fault; nothing is read any more. -/
  | fatal (diagnostic : Diagnostic)
deriving DecidableEq, Repr

/-- A step of reading. A step that stops early keeps what it did so far. -/
abbrev Step (α : Type) := EStateM Halt Reading α

/-! ### The state -/

/-- Begins to read a list of tokens. A list that no end of file token closes gets one,
just behind its last token. -/
def ofTokens (tokens : List Token) : Reading :=
  match tokens.getLast? with
  | none => ⟨[], Token.endOfFileAt .start, [], []⟩
  | some final =>
      if final.kind = .endOfFile then
        ⟨tokens.dropLast, final, [], []⟩
      else
        ⟨tokens, Token.endOfFileAt
          ⟨final.position.line, final.position.column + final.text.length⟩, [], []⟩

def current (reading : Reading) : Token :=
  reading.rest.headD reading.last

/-- Takes every token off the front whose kind passes the test. -/
def skip (test : Token.Kind → Bool) (reading : Reading) : Reading :=
  { reading with rest := reading.rest.dropWhile fun token => test token.kind }

/-- The tokens from the first one on whose kind passes the test outside all square
brackets that were opened on the way, or from an end of file token on. A closing
bracket that none opened counts for nothing. -/
def resumption (test : Token.Kind → Bool) (depth : Nat) : List Token → List Token
  | [] => []
  | token :: rest =>
      if token.kind = .endOfFile || (depth = 0 && test token.kind) then
        token :: rest
      else
        match token.kind with
        | .leftBracket => resumption test (depth + 1) rest
        | .rightBracket => resumption test (depth - 1) rest
        | _ => resumption test depth rest

/-! ### Steps on tokens -/

def peek : Step Token := fun reading =>
  .ok reading.current reading

def check (kind : Token.Kind) : Step Bool := fun reading =>
  .ok (reading.current.kind = kind) reading

/-- Reads one token. At the end of the input the reader stays where it is. -/
def advance : Step Token := fun reading =>
  .ok reading.current { reading with rest := reading.rest.tail }

def skipping (test : Token.Kind → Bool) : Step Unit := fun reading =>
  .ok () (reading.skip test)

/-- Whether a kind is a blank within a line. -/
def isSpace : Token.Kind → Bool
  | .space => true
  | _ => false

/-- Whether a kind is a blank where lines do not count. -/
def isWhitespace : Token.Kind → Bool
  | .space | .newline => true
  | _ => false

def skipSpace : Step Unit := skipping isSpace

def skipWhitespace : Step Unit := skipping isWhitespace

/-- Skips to a place from which reading can go on. -/
def resumeAt (test : Token.Kind → Bool) : Step Unit := fun reading =>
  .ok () { reading with rest := resumption test 0 reading.rest }

/-! ### Problems -/

/-- Stops at a fault of the score. -/
def refuse {α : Type} (diagnostic : Diagnostic) : Step α :=
  throw (.recoverable diagnostic)

/-- Stops at a fault of the reader. -/
def abort {α : Type} (problem : InternalProblem) : Step α := fun reading =>
  .error (.fatal (Diagnostic.internalAt reading.current problem)) reading

def report (diagnostic : Diagnostic) : Step Unit := fun reading =>
  .ok () { reading with diagnostics := reading.diagnostics ++ [diagnostic] }

/-- Stops because the token that the reader stands at is not what should be there. -/
def unexpected {α : Type} (expected : Expectation) : Step α := do
  let found ← peek
  refuse (Diagnostic.syntaxAt found (.unexpected expected found))

/-- Runs a step and hands a fault of the score to the caller. -/
def attempt {α : Type} (step : Step α) : Step (Except Diagnostic α) := fun reading =>
  match step reading with
  | .ok value after => .ok (.ok value) after
  | .error (.recoverable diagnostic) after => .ok (.error diagnostic) after
  | .error (.fatal diagnostic) after => .error (.fatal diagnostic) after

/-! ### Expected tokens -/

def expect (kind : Token.Kind) (expected : Expectation) : Step Token := do
  if ← check kind then
    advance
  else
    unexpected expected

/-- The value of a number token that was read. -/
def numberValue (token : Token) : Step Nat :=
  match token.number? with
  | some value => pure value
  | none => refuse (Diagnostic.syntaxAt token (.numberOutOfRange token))

def expectNumber (expected : Expectation) : Step Nat := do
  numberValue (← expect .number expected)

/-- The contents of a string token that was read. -/
def stringValue (token : Token) : Step String :=
  if token.isTerminated then
    pure token.unquoted
  else
    refuse (Diagnostic.syntaxAt token .unterminatedString)

/-! ### Nesting -/

def enter (context : Context) : Step Unit := fun reading =>
  .ok () { reading with contexts := context :: reading.contexts }

/-- Pops a context, which has to be the innermost one. -/
def leave (context : Context) : Step Unit := fun reading =>
  match reading.contexts with
  | [] => abort (.unbalancedContext context none) reading
  | innermost :: outer =>
      if innermost = context then
        .ok () { reading with contexts := outer }
      else
        abort (.unbalancedContext context (some innermost)) { reading with contexts := outer }

/-- Runs a step inside a context, which is left again however the step ends. -/
def within {α : Type} (context : Context) (step : Step α) : Step α := do
  enter context
  fun reading =>
    match step reading with
    | .ok value after => (do leave context; pure value : Step α) after
    | .error halt after => (do leave context; throw halt : Step α) after

/-- Whether the list being read already holds an expression. -/
def followsExpression : Step Bool := fun reading =>
  .ok (reading.contexts.head? = some .expression) reading

end Reading

end Solfege
