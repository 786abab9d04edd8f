import Solfege.Instrument.GeneralMidi
import Solfege.Score.Basic

/-!
Contract: whether an expanded score can be played.

Owns:
- the check that every instrument has a General MIDI program;
- the check that every note with an octave of its own has a MIDI pitch.

Does not own: notes without an octave, whose pitch depends on what the movement set
before, and names that were not expanded.
-/

namespace Solfege

namespace Instrument

/-- Octaves from this one on are taken for it: no note so high has a pitch, unless
hundreds of flats lower it. -/
def octaveCeiling : Nat := 1000

def noteProblem? (note : Note) : Option Diagnostic :=
  match note.octave with
  | none => none
  | some octave =>
      if note.name.isRest then
        none
      else
        match MidiPitch.of? note.name note.semitones (min octave octaveCeiling : Nat) with
        | some _ => none
        | none =>
            some (Diagnostic.instrumentAt note.token (.pitchOutOfRange note.name octave))

def memberProblem? : ChordMember → Option Diagnostic
  | .note written => noteProblem? written
  | .reference _ _ => none

def expressionProblems : Expression → List Diagnostic
  | .note written => (noteProblem? written).toList
  | .chord members _ => members.filterMap memberProblem?
  | .hold inner _ => expressionProblems inner
  | _ => []

/-- The problem of the instrument of a movement, if it has no program. -/
def instrumentProblem? (movement : Movement) : Option Diagnostic :=
  match programNumber? movement.instrument with
  | some _ => none
  | none =>
      some (Diagnostic.instrumentAt movement.token (.unknownInstrument movement.instrument))

/-- The problems of a movement: that of its instrument, then those of its notes. -/
def movementProblems (movement : Movement) : List Diagnostic :=
  (instrumentProblem? movement).toList ++ movement.expressions.flatMap expressionProblems

end Instrument

/-- The problems that keep a score from being played, movement by movement. -/
def Score.playingProblems (score : Score) : List Diagnostic :=
  score.movements.flatMap Instrument.movementProblems

end Solfege
