import Solfege.Token.Basic
import Solfege.Reading.Context

/-!
Contract: everything that can be wrong with a score, as causes, and the one place where
a cause is put into words.

Owns:
- the causes (`Problem`), grouped by the stage that finds them;
- a cause together with its place (`Diagnostic`);
- the kind, message and tip that are shown for it (`Report`), and their text.

Does not own: when a problem arises. Two diagnostics are the same finding exactly when
cause and place are equal.
-/

namespace Solfege

/-! ### Causes -/

/-- What should have stood where another token stands. -/
inductive Expectation where
  | statement
  | colonAfter (keyword : Token)
  | textAfter (keyword : Token)
  | endOfStatementAfter (keyword : Token)
  | colonAfterTrack
  | definitionAfter (name : Token)
  | equalsAfterMacro (name : Token)
  | parameter
  | endOfParameter
  | colonAfterMovement (instrument : Token)
  | endOfArgument
  | expression
  | equalsAfter (keyword : Token)
  | volumeLevel
  | noteAfter (sign : Token)
  | tempo
  | beatCount
  | measureSlash
  | beatUnit
  | repeatCount
  | octaveNumber
  | durationAfter (colon : Token)
  | denominator
deriving DecidableEq, Repr

/-- A list in which no comma may stand before the closing parenthesis. -/
inductive CommaList where
  | parameters
  | arguments
deriving DecidableEq, Repr

/-- A problem found while tokens are read. -/
inductive SyntaxProblem where
  | unexpected (expected : Expectation) (found : Token)
  | trailingComma (list : CommaList)
  | unterminatedString
  | unterminatedGroup
  | unterminatedArguments
  | numberOutOfRange (number : Token)
  | zeroMeasureUnit
  | zeroDenominator
  | repetitionFollowsNothing
  | releaseFollowsNothing
  | unholdable
  | unchordable
  | movementBeforeTrack (key : String)
deriving DecidableEq, Repr

/-- A problem with the names that a score defines. A line is where the earlier
definition stands, if it is known. -/
inductive NameProblem where
  | repeatedParameter (name : String)
  | repeatedMacro (name : String) (line : Option Nat)
  | repeatedMovement (key trackName : String) (line : Nat)
  | movementNamedLikeMacro (key : String) (line : Option Nat)
deriving DecidableEq, Repr

/-- A problem found while a score is expanded. -/
inductive ExpansionProblem where
  | nothingToRepeat
  | repetitionTooLarge (count limit : Nat)
  | repetitionLeft (count : Nat)
  | movementTooLarge (limit : Nat)
  | unknownName (name : String)
  | movementAsMacro (name : String)
  | selfReference (name : String) (chain : List String)
  | argumentCount (name : String) (taken given : Nat)
  | argumentInChord (parameter : String)
  | memberNotNotes (name : String)
  | unholdableExpansion
deriving DecidableEq, Repr

/-- A problem that the instrument check finds. -/
inductive InstrumentProblem where
  | unknownInstrument (name : String)
  | pitchOutOfRange (name : Syllable) (octave : Nat)
deriving DecidableEq, Repr

/-- A broken promise of the compiler itself. -/
inductive InternalProblem where
  | unbalancedContext (expected : Reading.Context) (found : Option Reading.Context)
  | contextLeftOpen (context : Reading.Context)
  | stepBound
  | missingMacro (name : String) (index : Nat)
deriving DecidableEq, Repr

/-- Everything that can be wrong, by the stage that finds it. -/
inductive Problem where
  | unrecognizedCharacter (character : Char)
  | ofSyntax (problem : SyntaxProblem)
  | ofNames (problem : NameProblem)
  | ofExpansion (problem : ExpansionProblem)
  | ofInstruments (problem : InstrumentProblem)
  | ofCompiler (problem : InternalProblem)
deriving DecidableEq, Repr

/-- A problem and the place it is reported at. -/
structure Diagnostic where
  problem : Problem
  position : Position
deriving DecidableEq, Repr

/-! ### Words -/

/-- What is expected, as a message begins. -/
def Expectation.text : Expectation → String
  | statement => "expected a statement"
  | colonAfter keyword => s!"expected ':' after {keyword.spelling}"
  | textAfter keyword => s!"expected a string after {keyword.spelling}:"
  | endOfStatementAfter keyword => s!"expected end of statement after {keyword.spelling}"
  | colonAfterTrack => "expected ':' after track"
  | definitionAfter name => s!"expected '=', '(', a tag or ':' after {name.spelling}"
  | equalsAfterMacro name => s!"expected '=' after macro {name.spelling}"
  | parameter => "expected a parameter name"
  | endOfParameter => "expected ',' or ')' after a parameter"
  | colonAfterMovement instrument => s!"expected ':' after movement {instrument.spelling}"
  | endOfArgument => "expected ',' or ')' after an argument"
  | expression => "expected an expression"
  | equalsAfter keyword => s!"expected '=' after {keyword.spelling}"
  | volumeLevel => "expected a volume level after '='"
  | noteAfter sign => s!"expected a note name after {sign.spelling}"
  | tempo => "expected a tempo after '^'"
  | beatCount => "expected a beat count after '!'"
  | measureSlash => "expected '/' in measure, e.g. `!3/4`"
  | beatUnit => "expected a beat unit after '/'"
  | repeatCount => "expected a repeat count after '*'"
  | octaveNumber => "expected an octave number after '.'"
  | durationAfter colon => s!"expected a duration after {colon.spelling}"
  | denominator => "expected a number after '/'"

/-- Advice for a token that is not what was expected. -/
def Expectation.tip? (found : Token) : Expectation → Option String
  | statement =>
      if found.kind.isNote then
        some "notes belong to a movement, e.g. `piano: do re mi`"
      else
        none
  | definitionAfter _ =>
      some "define a macro with `name = ...` or a movement with `instrument: ...`"
  | endOfArgument =>
      some "wrap multi-expression arguments in brackets, e.g. `m([do re], mi)`"
  | _ => none

def CommaList.text : CommaList → String
  | parameters => "parameter list"
  | arguments => "argument list"

namespace SyntaxProblem

def message : SyntaxProblem → String
  | unexpected expected found => s!"{expected.text}, got {found.spelling}"
  | trailingComma list => s!"trailing comma in {list.text}"
  | unterminatedString => "unterminated string literal"
  | unterminatedGroup => "unterminated expression group"
  | unterminatedArguments => "unterminated argument list"
  | numberOutOfRange number => s!"number {number.spelling} is out of range"
  | zeroMeasureUnit => "measure unit must not be zero"
  | zeroDenominator => "duration denominator must not be zero"
  | repetitionFollowsNothing => "'*' must follow an expression"
  | releaseFollowsNothing => "')' must follow an expression"
  | unholdable => "'(' must be followed by a note, chord or identifier"
  | unchordable => "chords can only be formed from notes and identifiers"
  | movementBeforeTrack key => s!"movement {key} appears before any track"

def tip? : SyntaxProblem → Option String
  | unexpected expected found => expected.tip? found
  | unterminatedString => some "close the string with '\"'"
  | unterminatedGroup => some "close the group with ']'"
  | unterminatedArguments => some "close the call with ')'"
  | repetitionFollowsNothing => some "write the expression first, e.g. `do*4`"
  | releaseFollowsNothing => some "a release closes held notes, e.g. `(do re mi)`"
  | movementBeforeTrack _ => some "open a track first, e.g. `track \"main\":`"
  | _ => none

end SyntaxProblem

namespace NameProblem

/-- Where an earlier definition stands, in words. -/
def siteText : Option Nat → String
  | some line => s!"at line {line}"
  | none => "earlier"

def message : NameProblem → String
  | repeatedParameter name => s!"parameter '{name}' is defined twice"
  | repeatedMacro name line => s!"'{name}' is already defined {siteText line}"
  | repeatedMovement key trackName line =>
      s!"movement {key} is already defined in track '{trackName}' at line {line}"
  | movementNamedLikeMacro key line =>
      s!"movement {key} collides with the macro defined {siteText line}"

def tip? : NameProblem → Option String
  | repeatedMacro _ _ => some "redefinitions are not allowed; rename one of them"
  | repeatedMovement _ _ _ => some "give one of them a tag, e.g. `piano \"left\": ...`"
  | _ => none

end NameProblem

namespace ExpansionProblem

def message : ExpansionProblem → String
  | nothingToRepeat => "repetition has nothing to repeat"
  | repetitionTooLarge count limit =>
      s!"repeating {count} times exceeds the expansion limit of {limit}"
  | repetitionLeft count =>
      s!"repetition '*{count}' was not expanded before macro resolution"
  | movementTooLarge limit => s!"movement expands to more than {limit} expressions"
  | unknownName name => s!"unknown identifier '{name}'"
  | movementAsMacro name => s!"'{name}' names a movement and cannot be used as a macro"
  | selfReference name chain =>
      s!"macro '{name}' references itself: " ++ String.intercalate " -> " chain
  | argumentCount name taken given =>
      s!"arity mismatch: macro '{name}' takes {taken} argument(s), {given} given"
  | argumentInChord parameter =>
      s!"argument for '{parameter}' is used in a chord and must be a note or chord"
  | memberNotNotes name => s!"'{name}' must expand to notes to be used in a chord"
  | unholdableExpansion => "a held expression must expand to a single note or chord"

def tip? : ExpansionProblem → Option String
  | nothingToRepeat => some "put the expression before the '*', e.g. `do*4`"
  | movementTooLarge _ =>
      some ("look for macros that call each other many times, " ++
        "or raise max_expansion in the config")
  | unknownName name => some s!"define it before use, e.g. `{name} = do re mi`"
  | selfReference _ _ =>
      some "macros cannot expand into themselves, directly or through other macros"
  | _ => none

end ExpansionProblem

namespace InstrumentProblem

def message : InstrumentProblem → String
  | unknownInstrument name => s!"instrument \"{name}\" is not supported"
  | pitchOutOfRange name octave =>
      s!"note {name.written} in octave {octave} is outside the MIDI pitch range"

def tip : InstrumentProblem → String
  | unknownInstrument _ =>
      "instruments like piano, guitar, violin or any General MIDI name are available"
  | pitchOutOfRange _ _ => "MIDI pitches run from do.0 to sol.10"

end InstrumentProblem

def InternalProblem.message : InternalProblem → String
  | unbalancedContext expected (some found) =>
      s!"nesting is corrupted: expected {expected.name} innermost, found {found.name}"
  | unbalancedContext expected none =>
      s!"nesting is corrupted: expected {expected.name} innermost, found nothing"
  | contextLeftOpen context => s!"nesting is not closed at end of input: {context.name}"
  | stepBound => "reading takes more steps than there are tokens"
  | missingMacro name index =>
      s!"identifier table points '{name}' at missing macro #{index}"

namespace Problem

def message : Problem → String
  | unrecognizedCharacter character => s!"unrecognized character '{character}'"
  | ofSyntax problem => problem.message
  | ofNames problem => problem.message
  | ofExpansion problem => problem.message
  | ofInstruments problem => problem.message
  | ofCompiler problem => problem.message

def tip? : Problem → Option String
  | unrecognizedCharacter _ => none
  | ofSyntax problem => problem.tip?
  | ofNames problem => problem.tip?
  | ofExpansion problem => problem.tip?
  | ofInstruments problem => some problem.tip
  | ofCompiler _ => none

end Problem

/-! ### Reports -/

namespace Diagnostic

/-- The stage that a problem belongs to. -/
inductive Kind where
  | lexical
  | syntactic
  | naming
  | resolution
  | instrument
  | internal
deriving DecidableEq, Repr

namespace Kind

def all : List Kind := [lexical, syntactic, naming, resolution, instrument, internal]

def name : Kind → String
  | lexical => "LexError"
  | syntactic => "SyntaxError"
  | naming => "IdentifierError"
  | resolution => "ResolutionError"
  | instrument => "InstrumentError"
  | internal => "InternalError"

def ofName? (text : String) : Option Kind :=
  all.find? fun kind => kind.name = text

end Kind

/-- What is shown of a problem. -/
structure Report where
  kind : Kind
  position : Position
  message : String
  tip : Option String
deriving DecidableEq, Repr

namespace Report

/-- The report as it is printed: place, kind and message, and the advice on a line of
its own. -/
def text (report : Report) : String :=
  let first :=
    s!"[{report.position.text}] {report.kind.name}: {report.message}"
  match report.tip with
  | none => first
  | some tip => s!"{first}\n| Tip: {tip}"

/-- Whether the compiler itself is at fault. -/
def isInternal (report : Report) : Bool :=
  report.kind = .internal

end Report

def kind (diagnostic : Diagnostic) : Kind :=
  match diagnostic.problem with
  | .unrecognizedCharacter _ => .lexical
  | .ofSyntax _ => .syntactic
  | .ofNames _ => .naming
  | .ofExpansion _ => .resolution
  | .ofInstruments _ => .instrument
  | .ofCompiler _ => .internal

def report (diagnostic : Diagnostic) : Report where
  kind := diagnostic.kind
  position := diagnostic.position
  message := diagnostic.problem.message
  tip := diagnostic.problem.tip?

def text (diagnostic : Diagnostic) : String :=
  diagnostic.report.text

def isInternal (diagnostic : Diagnostic) : Bool :=
  diagnostic.report.isInternal

/-! ### Diagnostics of a stage at a token -/

def syntaxAt (token : Token) (problem : SyntaxProblem) : Diagnostic :=
  ⟨.ofSyntax problem, token.position⟩

def namingAt (token : Token) (problem : NameProblem) : Diagnostic :=
  ⟨.ofNames problem, token.position⟩

def expansionAt (token : Token) (problem : ExpansionProblem) : Diagnostic :=
  ⟨.ofExpansion problem, token.position⟩

def instrumentAt (token : Token) (problem : InstrumentProblem) : Diagnostic :=
  ⟨.ofInstruments problem, token.position⟩

def internalAt (token : Token) (problem : InternalProblem) : Diagnostic :=
  ⟨.ofCompiler problem, token.position⟩

end Diagnostic

end Solfege
