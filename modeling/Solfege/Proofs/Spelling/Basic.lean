import Solfege.Proofs.Shape.Basic
import Solfege.Proofs.Spelling.Lexeme
import Solfege.Reading.Statement

/-!
Contract: every score has a canonical spelling.

Owns:
- the scores that can be written, which are those with names, numbers and texts that the
  language has, and with expressions of the shape in which expressions are read;
- the canonical spelling of a score: a line for each statement, with one blank between the
  elements of a list;
- scores without their tokens, which is what a spelling determines.

Does not own: the proof that a spelling is read back.
-/

namespace Solfege

/-- In a list without repetitions, an element does not occur in front of itself. -/
theorem not_mem_of_nodup {α : Type} {front back : List α} {element : α}
    (distinct : (front ++ element :: back).Nodup) : element ∉ front :=
  fun member => (List.nodup_append.mp distinct).2.2 element member element List.mem_cons_self rfl

/-! ### Names, texts and numbers -/

/-- A word that is not reserved. -/
def IsName (text : String) : Prop :=
  Lexeme.IsWord text.toList ∧ Token.Kind.keyword? text = none

instance (text : String) : Decidable (IsName text) :=
  inferInstanceAs (Decidable (Lexeme.IsWord text.toList ∧ Token.Kind.keyword? text = none))

/-- A text that can stand between quotes as it is. -/
def IsQuotable (text : String) : Prop :=
  Lexeme.IsQuotable text.toList

instance (text : String) : Decidable (IsQuotable text) :=
  inferInstanceAs (Decidable (Lexeme.IsQuotable text.toList))

/-- A number that a token can hold. -/
def IsSmall (value : Nat) : Prop :=
  value < Token.numberBound

instance (value : Nat) : Decidable (IsSmall value) :=
  inferInstanceAs (Decidable (value < Token.numberBound))

structure Duration.Writable (duration : Duration) : Prop where
  numerator : IsSmall duration.numerator
  denominator : IsSmall duration.denominator
  nonzero : duration.denominator ≠ 0

/-- Whole beats are written without a denominator. -/
def Duration.spelled (duration : Duration) : List Lexeme :=
  .number duration.numerator ::
    if duration.denominator = 1 then [] else [.sign '/', .number duration.denominator]

/-! ### Notes and chords -/

structure Note.Writable (note : Note) : Prop where
  octave : ∀ octave, note.octave = some octave → IsSmall octave
  duration : ∀ duration, note.duration = some duration → duration.Writable

namespace Note

def accidentalsSpelled (semitones : Int) : List Lexeme :=
  List.replicate semitones.natAbs (.sign (if 0 ≤ semitones then '+' else '-'))

def octaveSpelled : Option Nat → List Lexeme
  | none => []
  | some octave => [.sign '.', .number octave]

def durationSpelled : Option Duration → List Lexeme
  | none => []
  | some duration => .sign ':' :: duration.spelled

def spelled (note : Note) : List Lexeme :=
  .word note.name.written :: (accidentalsSpelled note.semitones ++
    (octaveSpelled note.octave ++ durationSpelled note.duration))

def erased (note : Note) : Note :=
  { note with token := default }

end Note

namespace ChordMember

def Writable : ChordMember → Prop
  | .note written => written.Writable
  | .reference name _ => IsName name

def spelled : ChordMember → List Lexeme
  | .note written => written.spelled
  | .reference name _ => [.word name]

/-- The members of a chord, with slashes between them. -/
def allSpelled : List ChordMember → List Lexeme
  | [] => []
  | [member] => member.spelled
  | member :: next :: others => member.spelled ++ .sign '/' :: allSpelled (next :: others)

theorem exists_allSpelled_cons (member : ChordMember) (others : List ChordMember) :
    ∃ more, allSpelled (member :: others) = member.spelled ++ more := by
  cases others with
  | nil => exact ⟨[], (List.append_nil _).symm⟩
  | cons next others => exact ⟨_, rfl⟩

def erased : ChordMember → ChordMember
  | .note written => .note written.erased
  | .reference name _ => .reference name default

end ChordMember

/-! ### Directives -/

namespace Directive

def Writable : Directive → Prop
  | .octave _ amount => IsSmall amount
  | .duration value => value.Writable
  | .tempo beatsPerMinute => IsSmall beatsPerMinute
  | .tone _ note => note ≠ .rest
  | .measure beats unit => IsSmall beats ∧ IsSmall unit ∧ unit ≠ 0
  | .volume value => IsSmall value
  | .interval value => IsSmall value

def spelled : Directive → List Lexeme
  | .octave .up amount => [.sign '>', .number amount]
  | .octave .down amount => [.sign '<', .number amount]
  | .duration value => .sign ':' :: value.spelled
  | .tempo beatsPerMinute => [.sign '^', .number beatsPerMinute]
  | .tone .up note => [.sign '+', .word note.written]
  | .tone .down note => [.sign '-', .word note.written]
  | .measure beats unit => [.sign '!', .number beats, .sign '/', .number unit]
  | .volume value => [.word "v", .sign '=', .number value]
  | .interval value => [.number value]

end Directive

/-! ### Expressions -/

namespace Expression

/-- An expression that can be written. There is no way to write a placeholder. -/
inductive Writable : Expression → Prop where
  | note {written : Note} (writable : written.Writable) : Writable (.note written)
  | chord {members : List ChordMember} (token : Token) (several : 2 ≤ members.length)
      (writable : ∀ member ∈ members, member.Writable)
      (undelayed : ∀ member ∈ members.dropLast, member.duration? = none) :
      Writable (.chord members token)
  | reference {name : String} (token : Token) (isName : IsName name) :
      Writable (.reference name token)
  | call {name : String} {arguments : List Expression} (token : Token) (isName : IsName name)
      (writable : ∀ argument ∈ arguments, Writable argument)
      (plain : ∀ argument ∈ arguments, argument.isPostfix = false) :
      Writable (.call name arguments token)
  | repetition {count : Nat} (token : Token) (small : IsSmall count) :
      Writable (.repetition count token)
  | hold {inner : Expression} (token : Token) (holdable : Holdable inner)
      (writable : Writable inner) : Writable (.hold inner token)
  | release (token : Token) : Writable (.release token)
  | group {items : List Expression} (token : Token)
      (writable : ∀ item ∈ items, Writable item)
      (opened : ∀ first ∈ items.head?, first.isPostfix = false) : Writable (.group items token)
  | directive {setting : Directive} (token : Token) (writable : setting.Writable) :
      Writable (.directive setting token)
  | bar (token : Token) : Writable (.bar token)

/-- A list that can be the body of a statement: no postfix sign is its first element. -/
def WritableList (items : List Expression) : Prop :=
  (∀ item ∈ items, Writable item) ∧ ∀ first ∈ items.head?, first.isPostfix = false

mutual

def spelled : Expression → List Lexeme
  | .note written => written.spelled
  | .chord members _ => ChordMember.allSpelled members
  | .reference name _ => [.word name]
  | .call name arguments _ =>
      .word name :: .sign '(' :: (argumentsSpelled arguments ++ [.sign ')'])
  | .repetition count _ => [.sign '*', .number count]
  | .hold inner _ => .sign '(' :: spelled inner
  | .release _ => [.sign ')']
  | .group items _ => .sign '[' :: (itemsSpelled items ++ [.sign ']'])
  | .directive setting _ => setting.spelled
  | .bar _ => [.sign '|']
  | .placeholder _ => []

/-- The arguments of a call, with a comma and a blank between them. -/
def argumentsSpelled : List Expression → List Lexeme
  | [] => []
  | argument :: others => spelled argument ++ furtherArgumentsSpelled others

def furtherArgumentsSpelled : List Expression → List Lexeme
  | [] => []
  | argument :: others =>
      .sign ',' :: .blank :: (spelled argument ++ furtherArgumentsSpelled others)

/-- The items of a group, with a blank between them. -/
def itemsSpelled : List Expression → List Lexeme
  | [] => []
  | item :: others => spelled item ++ furtherItemsSpelled others

/-- Items, each of them behind a blank. -/
def furtherItemsSpelled : List Expression → List Lexeme
  | [] => []
  | item :: others => .blank :: (spelled item ++ furtherItemsSpelled others)

end

mutual

def erased : Expression → Expression
  | .note written => .note written.erased
  | .chord members _ => .chord (members.map ChordMember.erased) default
  | .reference name _ => .reference name default
  | .call name arguments _ => .call name (erasedAll arguments) default
  | .repetition count _ => .repetition count default
  | .hold inner _ => .hold (erased inner) default
  | .release _ => .release default
  | .group items _ => .group (erasedAll items) default
  | .directive setting _ => .directive setting default
  | .bar _ => .bar default
  | .placeholder _ => .placeholder default

def erasedAll : List Expression → List Expression
  | [] => []
  | item :: others => erased item :: erasedAll others

end

theorem erasedAll_eq_map (items : List Expression) : erasedAll items = items.map erased := by
  induction items with
  | nil => rfl
  | cons item others inductionHypothesis => rw [erasedAll, inductionHypothesis, List.map_cons]

end Expression

/-! ### Statements -/

def Metadata.Writable : Metadata → Prop
  | .title text => IsQuotable text
  | .copyRight text => IsQuotable text

structure Macro.Writable (definition : Macro) : Prop where
  name : IsName definition.name
  parameters : ∀ parameter ∈ definition.parameters, IsName parameter
  distinct : definition.parameters.Nodup
  body : Expression.WritableList definition.body

structure Movement.Writable (movement : Movement) : Prop where
  instrument : IsName movement.instrument
  tag : ∀ tag, movement.tag = some tag → IsQuotable tag
  expressions : Expression.WritableList movement.expressions

def Macro.erased (definition : Macro) : Macro :=
  { definition with body := definition.body.map Expression.erased, token := default }

def Movement.erased (movement : Movement) : Movement :=
  { movement with expressions := movement.expressions.map Expression.erased, token := default }

def Track.erased (track : Track) : Track :=
  { track with movements := track.movements.map Movement.erased }

namespace Macro

/-- Parameters, each of them behind a comma and a blank. -/
def furtherParametersSpelled : List String → List Lexeme
  | [] => []
  | parameter :: others =>
      .sign ',' :: .blank :: .word parameter :: furtherParametersSpelled others

/-- The parameters between parentheses, which are left out if there are none. -/
def parametersSpelled : List String → List Lexeme
  | [] => []
  | parameter :: others =>
      .sign '(' :: .word parameter :: (furtherParametersSpelled others ++ [.sign ')'])

end Macro

/-- A tag between quotes, behind a blank. -/
def Movement.tagSpelled : Option String → List Lexeme
  | none => []
  | some tag => [.blank, .quoted tag]

namespace Reading.Statement

def Writable : Statement → Prop
  | .metadata entry _ => entry.Writable
  | .track name => IsQuotable name
  | .definition added => added.Writable
  | .movement added => added.Writable

/-- The statement on a line, without the end of that line. -/
def spelled : Statement → List Lexeme
  | .metadata (.title text) _ => [.word "title", .sign ':', .blank, .quoted text]
  | .metadata (.copyRight text) _ => [.word "copy_right", .sign ':', .blank, .quoted text]
  | .track name => [.word "track", .blank, .quoted name, .sign ':']
  | .definition added =>
      .word added.name :: (Macro.parametersSpelled added.parameters ++
        .blank :: .sign '=' :: Expression.furtherItemsSpelled added.body)
  | .movement added =>
      .word added.instrument :: (Movement.tagSpelled added.tag ++
        .sign ':' :: Expression.furtherItemsSpelled added.expressions)

/-- The statements are the same, but for the tokens. -/
inductive Alike : Statement → Statement → Prop where
  | metadata (entry : Metadata) (keyword other : Token) :
      Alike (.metadata entry keyword) (.metadata entry other)
  | track (name : String) : Alike (.track name) (.track name)
  | definition {read written : Macro} (same : read.erased = written.erased) :
      Alike (.definition read) (.definition written)
  | movement {read written : Movement} (same : read.erased = written.erased) :
      Alike (.movement read) (.movement written)

theorem Alike.refl (statement : Statement) : statement.Alike statement := by
  cases statement with
  | metadata entry keyword => exact .metadata entry keyword keyword
  | track name => exact .track name
  | definition added => exact .definition rfl
  | movement added => exact .movement rfl

/-- Statements, each of them on a line of its own. -/
def allSpelled : List Statement → List Lexeme
  | [] => []
  | statement :: others => statement.spelled ++ .lineEnd :: allSpelled others

end Reading.Statement

/-! ### Scores -/

/-- A track is opened, and its movements follow. -/
def Track.statements (track : Track) : List Reading.Statement :=
  .track track.name :: track.movements.map .movement

namespace Score

/-- The statements that a score consists of: metadata, macros, and the tracks. -/
def statements (score : Score) : List Reading.Statement :=
  score.metadata.map (fun entry => .metadata entry default) ++
    (score.macros.map .definition ++ score.tracks.flatMap Track.statements)

/-- The canonical spelling of a score. -/
def source (score : Score) : String :=
  String.ofList (Lexeme.textOf (Reading.Statement.allSpelled score.statements))

/-- A score that can be written. It has a track, no two macros share a name, no movement
is named like a macro, and no two movements of a track share their instrument and tag. -/
structure Writable (score : Score) : Prop where
  metadata : ∀ entry ∈ score.metadata, entry.Writable
  macros : ∀ definition ∈ score.macros, definition.Writable
  tracks : ∀ track ∈ score.tracks, IsQuotable track.name
  movements : ∀ movement ∈ score.movements, movement.Writable
  hasTrack : score.tracks ≠ []
  distinctMacros : (score.macros.map Macro.name).Nodup
  apart : ∀ movement ∈ score.movements, movement.tag = none →
    movement.instrument ∉ score.macros.map Macro.name
  distinctMovements : ∀ track ∈ score.tracks,
    (track.movements.map fun movement => (movement.instrument, movement.tag)).Nodup

end Score

end Solfege
