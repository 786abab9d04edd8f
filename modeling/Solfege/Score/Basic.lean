import Solfege.Diagnostic
import Solfege.Score.NameTable

/-!
Contract: scores as trees.

Owns:
- notes, chords, directives and the expressions built from them, with the induction over
  their parts and the decision whether two are the same;
- macros, movements, tracks and the score that holds them;
- the keys under which movements are named, and the look-up of macros by name;
- which expressions are terminal, that is, need no further expansion.

Does not own: how a score is read, expanded or printed. Every expression keeps the token
it was read from, so that later stages can point at it.
-/

namespace Solfege

/-! ### Notes -/

inductive Direction where
  | up
  | down
deriving DecidableEq, Repr

def Direction.label : Direction → String
  | up => "up"
  | down => "down"

/-- A length in beats. It is kept as the fraction that was written, which need not be
in lowest terms. -/
structure Duration where
  numerator : Nat
  denominator : Nat
deriving DecidableEq, Repr

namespace Duration

def beats (count : Nat) : Duration := ⟨count, 1⟩

/-- The length as it is written: whole beats need no denominator. -/
def text (duration : Duration) : String :=
  if duration.denominator = 1 then
    toString duration.numerator
  else
    s!"{duration.numerator}/{duration.denominator}"

def asBeats (duration : Duration) : Float :=
  Float.ofNat duration.numerator / Float.ofNat duration.denominator

end Duration

/-- A note or a rest. Without octave or duration it takes what the movement last set. -/
structure Note where
  name : Syllable
  semitones : Int
  octave : Option Nat
  duration : Option Duration
  token : Token
deriving DecidableEq, Repr

/-- A member of a chord: a note, or a reference that must expand to notes. -/
inductive ChordMember where
  | note (note : Note)
  | reference (name : String) (token : Token)
deriving DecidableEq, Repr

def ChordMember.token : ChordMember → Token
  | note written => written.token
  | reference _ token => token

/-! ### Expressions -/

/-- A setting that holds from its place in a movement on. -/
inductive Directive where
  | octave (direction : Direction) (amount : Nat)
  | duration (value : Duration)
  | tempo (beatsPerMinute : Nat)
  | tone (direction : Direction) (note : Syllable)
  | measure (beats unit : Nat)
  | volume (value : Nat)
  /-- The number of beats until the next note starts. -/
  | interval (value : Nat)
deriving DecidableEq, Repr

/-- An element of a movement or of the body of a macro. -/
inductive Expression where
  | note (note : Note)
  | chord (members : List ChordMember) (token : Token)
  | reference (name : String) (token : Token)
  | call (name : String) (arguments : List Expression) (token : Token)
  /-- Stands for copies of the element in front of it. -/
  | repetition (count : Nat) (token : Token)
  | hold (inner : Expression) (token : Token)
  | release (token : Token)
  | group (items : List Expression) (token : Token)
  | directive (directive : Directive) (token : Token)
  | bar (token : Token)
  /-- Stands where reading failed. -/
  | placeholder (token : Token)

namespace Expression

instance : Inhabited Expression := ⟨placeholder default⟩

/-- Induction over an expression, where a property of a list is one of each of its
elements. -/
theorem partsInduction {motive : Expression → Prop}
    (note : ∀ written, motive (.note written))
    (chord : ∀ members token, motive (.chord members token))
    (reference : ∀ name token, motive (.reference name token))
    (call : ∀ name arguments token, (∀ argument ∈ arguments, motive argument) →
      motive (.call name arguments token))
    (repetition : ∀ count token, motive (.repetition count token))
    (hold : ∀ inner token, motive inner → motive (.hold inner token))
    (release : ∀ token, motive (.release token))
    (group : ∀ items token, (∀ item ∈ items, motive item) → motive (.group items token))
    (directive : ∀ directive token, motive (.directive directive token))
    (bar : ∀ token, motive (.bar token))
    (placeholder : ∀ token, motive (.placeholder token)) (expression : Expression) :
    motive expression :=
  Expression.rec (motive_2 := fun list => ∀ item ∈ list, motive item)
    note chord reference call repetition hold release group directive bar placeholder
    (fun _ impossible => absurd impossible List.not_mem_nil)
    (fun _ _ here others => List.forall_mem_cons.mpr ⟨here, others⟩) expression

def token : Expression → Token
  | note written => written.token
  | chord _ token => token
  | reference _ token => token
  | call _ _ token => token
  | repetition _ token => token
  | hold _ token => token
  | release token => token
  | group _ token => token
  | directive _ token => token
  | bar token => token
  | placeholder token => token

def allNotes (members : List ChordMember) : Bool :=
  members.all fun
    | .note _ => true
    | .reference _ _ => false

/-- Whether an expression stands for itself, without further expansion. -/
def isTerminal : Expression → Bool
  | note _ => true
  | chord members _ => allNotes members
  | reference _ _ => false
  | call _ _ _ => false
  | repetition _ _ => false
  | hold inner _ => inner.isTerminal
  | release _ => true
  | group _ _ => false
  | directive _ _ => true
  | bar _ => true
  | placeholder _ => true

mutual

/-- The tokens of an expression and of its parts in reading order, behind `collected`,
which holds what was read before, the latest first. -/
def collectTokens (collected : List Token) : Expression → List Token
  | chord members token =>
      members.foldl (fun tokens member => member.token :: tokens) (token :: collected)
  | call _ arguments token => collectAllTokens (token :: collected) arguments
  | group items token => collectAllTokens (token :: collected) items
  | hold inner token => collectTokens (token :: collected) inner
  | note written => written.token :: collected
  | reference _ token => token :: collected
  | repetition _ token => token :: collected
  | release token => token :: collected
  | directive _ token => token :: collected
  | bar token => token :: collected
  | placeholder token => token :: collected

/-- The tokens of a list of expressions, collected in the same way. -/
def collectAllTokens (collected : List Token) : List Expression → List Token
  | [] => collected
  | expression :: rest => collectAllTokens (collectTokens collected expression) rest

end

/-- The tokens of a list of expressions and of all their parts, in reading order: a
chord before its members, a call before its arguments, a group before its items and a
hold before what it holds. -/
def allTokens (expressions : List Expression) : List Token :=
  (collectAllTokens [] expressions).reverse

mutual

/-- Whether two expressions are the same, down to their tokens. -/
def equals : Expression → Expression → Bool
  | note written, note other => written = other
  | chord members token, chord others other => members = others && token = other
  | reference name token, reference other behind => name = other && token = behind
  | call name arguments token, call other others behind =>
      name = other && allEqual arguments others && token = behind
  | repetition count token, repetition other behind => count = other && token = behind
  | hold inner token, hold other behind => equals inner other && token = behind
  | release token, release other => token = other
  | group items token, group others other => allEqual items others && token = other
  | directive setting token, directive other behind => setting = other && token = behind
  | bar token, bar other => token = other
  | placeholder token, placeholder other => token = other
  | _, _ => false

/-- Whether two lists of expressions are the same. -/
def allEqual : List Expression → List Expression → Bool
  | [], [] => true
  | expression :: rest, other :: others => equals expression other && allEqual rest others
  | _, _ => false

end

theorem allEqual_iff_of_forall {expressions : List Expression}
    (each : ∀ expression ∈ expressions, ∀ other, equals expression other = true ↔
      expression = other) (others : List Expression) :
    allEqual expressions others = true ↔ expressions = others := by
  induction expressions generalizing others with
  | nil => cases others <;> simp [allEqual]
  | cons expression rest inductionHypothesis =>
      obtain ⟨here, behind⟩ := List.forall_mem_cons.mp each
      cases others with
      | nil => simp [allEqual]
      | cons other others => simp [allEqual, here, inductionHypothesis behind]

theorem equals_iff (expression other : Expression) :
    equals expression other = true ↔ expression = other := by
  induction expression using partsInduction generalizing other with
  | note | chord | reference | repetition | release | directive | bar | placeholder =>
      cases other <;> simp [equals]
  | call _ _ _ arguments =>
      cases other <;> simp [equals, allEqual_iff_of_forall arguments, and_assoc]
  | hold _ _ inner => cases other <;> simp [equals, inner]
  | group _ _ items => cases other <;> simp [equals, allEqual_iff_of_forall items]

instance : DecidableEq Expression := fun expression other =>
  decidable_of_iff (equals expression other = true) (equals_iff expression other)

end Expression

/-! ### Scores -/

/-- A statement about the score as a whole. -/
inductive Metadata where
  | title (text : String)
  | copyRight (text : String)
deriving DecidableEq, Repr

/-- A macro: a body with parameters, put in place of each use. -/
structure Macro where
  name : String
  parameters : List String
  body : List Expression
  token : Token
deriving DecidableEq

/-- What one instrument plays within a track. A tag tells apart movements of the same
instrument. -/
structure Movement where
  instrument : String
  tag : Option String
  expressions : List Expression
  token : Token
deriving DecidableEq

namespace Movement

/-- The name of the movement of an instrument, with its tag if it has one. -/
def keyOf (instrument : String) : Option String → String
  | some tag => s!"{instrument} \"{tag}\""
  | none => instrument

def key (movement : Movement) : String :=
  keyOf movement.instrument movement.tag

end Movement

/-- Movements that belong together. -/
structure Track where
  name : String
  movements : List Movement
deriving DecidableEq

def Track.add (track : Track) (movement : Movement) : Track :=
  { track with movements := track.movements ++ [movement] }

/-- A score, with the problems found when it was read. -/
structure Score where
  metadata : List Metadata
  macros : List Macro
  tracks : List Track
  names : NameTable
  diagnostics : List Diagnostic
deriving DecidableEq

namespace Score

def hasErrors (score : Score) : Bool :=
  !score.diagnostics.isEmpty

/-- The macro at a place counted from one. -/
def macroAt? (macros : List Macro) : Nat → Option Macro
  | 0 => none
  | index + 1 => macros[index]?

/-- The macro that a name stands for. -/
def macro? (score : Score) (name : String) : Option Macro :=
  (score.names.macroIndex? name).bind (macroAt? score.macros)

/-- The movements of all tracks in order. -/
def movements (score : Score) : List Movement :=
  score.tracks.flatMap Track.movements

end Score

end Solfege
