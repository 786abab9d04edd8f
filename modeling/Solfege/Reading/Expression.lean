import Solfege.Reading.Basic
import Solfege.Score.Basic

/-!
Contract: the grammar of expressions.

Owns:
- what each kind of token begins: notes, chords, names, calls, holds, groups, directives
  and the postfix signs;
- the two layouts of a list of expressions, and how such a list goes on behind a
  problem, which leaves a placeholder;
- argument lists, which a problem replaces as a whole.

Does not own: statements and the names they define.

Every reader that needs expressions inside takes the reader for them as an argument.
`expression` closes this knot. Its bound is the number of tokens left, because an
expression inside another one begins behind a token of the outer one; the loops are
bounded in the same way, because each of their rounds reads a token or is the last.
-/

namespace Solfege.Reading

/-! ### Directives -/

/-- Reads the denominator of a fraction, from the slash on. -/
def fraction (numerator : Nat) : Step Duration := do
  let _ ← advance
  let written ← peek
  let denominator ← expectNumber .denominator
  if denominator = 0 then
    refuse (Diagnostic.syntaxAt written .zeroDenominator)
  else
    pure ⟨numerator, denominator⟩

/-- Reads a length behind its colon: whole beats, a fraction, or a part of one beat. -/
def durationValue (colon : Token) : Step Duration := do
  if ← check .slash then
    fraction 1
  else
    let beats ← expectNumber (.durationAfter colon)
    if ← check .slash then
      fraction beats
    else
      pure (Duration.beats beats)

/-- Reads a change of duration, `:3` or `:3/4` or `:/4`. -/
def durationDirective : Step Expression := do
  let colon ← advance
  let value ← durationValue colon
  pure (.directive (.duration value) colon)

/-- Reads a volume, `v=80`. -/
def volumeDirective : Step Expression := do
  let keyword ← advance
  let _ ← expect .equals (.equalsAfter keyword)
  let value ← expectNumber .volumeLevel
  pure (.directive (.volume value) keyword)

/-- Reads a change of tone, `+fa` or `-si`. A rest has no tone. -/
def toneDirective (direction : Direction) : Step Expression := do
  let sign ← advance
  let found ← peek
  match found.kind with
  | .note .rest => unexpected (.noteAfter sign)
  | .note name => do
      let _ ← advance
      pure (.directive (.tone direction name) sign)
  | _ => unexpected (.noteAfter sign)

/-- Reads a change of octave, `>2` or `<`. Without a number it is by no octave. -/
def octaveDirective (direction : Direction) : Step Expression := do
  let arrow ← advance
  if ← check .number then
    let amount ← numberValue (← advance)
    pure (.directive (.octave direction amount) arrow)
  else
    pure (.directive (.octave direction 0) arrow)

/-- Reads a measure, `!3/4`. -/
def measureDirective : Step Expression := do
  let bang ← advance
  let beats ← expectNumber .beatCount
  let _ ← expect .slash .measureSlash
  let written ← peek
  let unit ← expectNumber .beatUnit
  if unit = 0 then
    refuse (Diagnostic.syntaxAt written .zeroMeasureUnit)
  else
    pure (.directive (.measure beats unit) bang)

/-- Reads a tempo, `^120`. -/
def tempoDirective : Step Expression := do
  let caret ← advance
  let beatsPerMinute ← expectNumber .tempo
  pure (.directive (.tempo beatsPerMinute) caret)

/-- Reads an interval, a bare number. -/
def intervalDirective : Step Expression := do
  let number ← advance
  let value ← numberValue number
  pure (.directive (.interval value) number)

def barLine : Step Expression := do
  let bar ← advance
  pure (.bar bar)

/-! ### Postfix signs -/

/-- Reads a repetition, `*4`, which needs an expression in front of it. -/
def repetitionSign : Step Expression := do
  let star ← advance
  if ← followsExpression then
    let count ← expectNumber .repeatCount
    pure (.repetition count star)
  else
    refuse (Diagnostic.syntaxAt star .repetitionFollowsNothing)

/-- Reads a release, a closing parenthesis, which needs an expression in front of it. -/
def releaseSign : Step Expression := do
  let paren ← advance
  if ← followsExpression then
    pure (.release paren)
  else
    refuse (Diagnostic.syntaxAt paren .releaseFollowsNothing)

/-! ### Chords and notes -/

/-- Reads a chord from the slash behind its first member on. The rest of the chord is
an expression of its own: a note, a name, or a shorter chord. -/
def chordFrom (inner : Step Expression) (first : ChordMember) (token : Token) :
    Step Expression := do
  let _ ← advance
  let rest ← within .chord inner
  match rest with
  | .note written => pure (.chord [first, .note written] token)
  | .reference name written => pure (.chord [first, .reference name written] token)
  | .chord members _ => pure (.chord (first :: members) token)
  | other => refuse (Diagnostic.syntaxAt other.token .unchordable)

/-- Whether a kind is a sign that alters a note by a semitone. -/
def isAccidental : Token.Kind → Bool
  | .plus | .dash => true
  | _ => false

/-- The semitones that a run of accidentals raises a note by. -/
def semitonesOf (signs : List Token) : Int :=
  signs.foldl
    (fun semitones sign => if sign.kind = .plus then semitones + 1 else semitones - 1) 0

def accidentals : Step Int := fun reading =>
  .ok (semitonesOf (reading.rest.takeWhile fun token => isAccidental token.kind))
    (reading.skip isAccidental)

def octaveSuffix : Step (Option Nat) := do
  if ← check .dot then
    let _ ← advance
    let octave ← expectNumber .octaveNumber
    pure (some octave)
  else
    pure none

def durationSuffix : Step (Option Duration) := do
  if ← check .colon then
    let colon ← advance
    let value ← durationValue colon
    pure (some value)
  else
    pure none

/-- Reads a note with its accidentals, octave and duration, or a chord that begins with
one. Before a slash a note has no duration of its own. -/
def noteFrom (inner : Step Expression) (name : Syllable) : Step Expression := do
  let token ← advance
  let semitones ← accidentals
  let octave ← octaveSuffix
  if ← check .slash then
    chordFrom inner (.note ⟨name, semitones, octave, none, token⟩) token
  else
    let duration ← durationSuffix
    pure (.note ⟨name, semitones, octave, duration, token⟩)

/-! ### Calls and names -/

/-- Reads arguments up to the closing parenthesis, behind those already read, which are
given latest first. -/
def argumentsFrom (inner : Step Expression) : Nat → List Expression → Step (List Expression)
  | 0, _ => abort .stepBound
  | bound + 1, found => do
      skipWhitespace
      if ← check .endOfFile then
        let final ← peek
        refuse (Diagnostic.syntaxAt final .unterminatedArguments)
      else
        let argument ← inner
        skipWhitespace
        let behind ← peek
        match behind.kind with
        | .rightParen => do
            let _ ← advance
            pure (argument :: found).reverse
        | .comma => do
            let _ ← advance
            skipWhitespace
            if ← check .rightParen then
              let closing ← peek
              refuse (Diagnostic.syntaxAt closing (.trailingComma .arguments))
            else
              argumentsFrom inner bound (argument :: found)
        | _ => unexpected .endOfArgument

def argumentList (inner : Step Expression) : Step (List Expression) := do
  skipWhitespace
  if ← check .rightParen then
    let _ ← advance
    pure []
  else
    fun reading => argumentsFrom inner (reading.rest.length + 1) [] reading

def isRightParen : Token.Kind → Bool
  | .rightParen => true
  | _ => false

/-- Reads an argument list; one with a problem is skipped up to a closing parenthesis,
and a placeholder at the name stands for it. -/
def recoveredArguments (inner : Step Expression) (name : Token) :
    Step (List Expression) := do
  match ← attempt (argumentList inner) with
  | .ok arguments => pure arguments
  | .error diagnostic => do
      report diagnostic
      resumeAt isRightParen
      if ← check .rightParen then
        discard advance
      pure [.placeholder name]

/-- Reads a call from its opening parenthesis on. -/
def callFrom (inner : Step Expression) (name : Token) : Step Expression := do
  let _ ← advance
  let arguments ← within .arguments (recoveredArguments inner name)
  pure (.call name.text arguments name)

/-- Reads a name, a call, or a chord that begins with a name. -/
def nameFrom (inner : Step Expression) : Step Expression := do
  let name ← advance
  let behind ← peek
  match behind.kind with
  | .slash => chordFrom inner (.reference name.text name) name
  | .leftParen => callFrom inner name
  | _ => pure (.reference name.text name)

/-! ### Holds -/

/-- Whether an expression can be held: a note, a chord, a name or a call. -/
def canBeHeld : Expression → Bool
  | .note _ | .chord _ _ | .reference _ _ | .call _ _ _ => true
  | _ => false

/-- Reads a hold from its opening parenthesis on. -/
def holdFrom (inner : Step Expression) : Step Expression := do
  let opening ← advance
  let held ← within .hold do
    skipSpace
    inner
  if canBeHeld held then
    pure (.hold held opening)
  else
    refuse (Diagnostic.syntaxAt held.token .unholdable)

/-! ### Lists of expressions -/

/-- How a list of expressions is laid out: what separates its elements, what ends it,
and where it goes on behind a problem. -/
structure Layout where
  separates : Token.Kind → Bool
  ends : Token.Kind → Bool
  resumes : Token.Kind → Bool

namespace Layout

/-- A body runs to the end of its statement. -/
def body : Layout where
  separates := isSpace
  ends := Token.Kind.endsStatement
  resumes
    | .newline | .semicolon => true
    | _ => false

/-- A group runs to its closing bracket, across lines. -/
def group : Layout where
  separates := isWhitespace
  ends
    | .rightBracket | .endOfFile => true
    | _ => false
  resumes
    | .rightBracket => true
    | _ => false

end Layout

/-- Reads expressions up to the token that ends the list, which is left standing.
`marked` tells whether the list already holds an expression, and `found` what it holds,
the latest first. A problem is reported and leaves a placeholder. -/
def elementsFrom (layout : Layout) (inner : Step Expression) :
    Nat → Bool → List Expression → Step (List Expression)
  | 0, _, _ => abort .stepBound
  | bound + 1, marked, found => do
      skipping layout.separates
      let first ← peek
      if layout.ends first.kind then
        if marked then leave .expression
        pure found.reverse
      else
        match ← attempt inner with
        | .ok element => do
            if !marked then enter .expression
            elementsFrom layout inner bound true (element :: found)
        | .error diagnostic => do
            report diagnostic
            resumeAt layout.resumes
            elementsFrom layout inner bound marked (.placeholder first :: found)

def elements (layout : Layout) (inner : Step Expression) : Step (List Expression) :=
  fun reading => elementsFrom layout inner (reading.rest.length + 1) false [] reading

/-- Reads the items of a group and its closing bracket. -/
def groupItems (inner : Step Expression) (opening : Token) : Step (List Expression) := do
  let items ← elements .group inner
  if ← check .rightBracket then
    let _ ← advance
    pure items
  else
    refuse (Diagnostic.syntaxAt opening .unterminatedGroup)

/-- Reads a group from its opening bracket on. -/
def groupFrom (inner : Step Expression) : Step Expression := do
  let opening ← advance
  let items ← within .group (groupItems inner opening)
  pure (.group items opening)

/-! ### Expressions -/

/-- Reads one expression, of whatever sort its first token begins. -/
def expressionFrom (inner : Step Expression) : Step Expression := do
  let first ← peek
  match first.kind with
  | .volume => volumeDirective
  | .plus => toneDirective .up
  | .dash => toneDirective .down
  | .greater => octaveDirective .up
  | .less => octaveDirective .down
  | .colon => durationDirective
  | .bang => measureDirective
  | .caret => tempoDirective
  | .pipe => barLine
  | .number => intervalDirective
  | .asterisk => repetitionSign
  | .rightParen => releaseSign
  | .leftParen => holdFrom inner
  | .leftBracket => groupFrom inner
  | .word => nameFrom inner
  | .note name => noteFrom inner name
  | _ => unexpected .expression

/-- Reads one expression in which expressions nest at most as deep as the bound. -/
def expression : Nat → Step Expression
  | 0 => abort .stepBound
  | bound + 1 => expressionFrom (expression bound)

/-- Reads the expressions up to the end of the statement. -/
def body : Step (List Expression) := fun reading =>
  elements .body (expression (reading.rest.length + 1)) reading

end Solfege.Reading
