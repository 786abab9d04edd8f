/-!
Contract: the solmisation syllables of the fixed-do system, and the MIDI pitch of a
sounded syllable.

Owns:
- the seven syllables and the rest, with their written and their serialised names;
- pitch classes in semitones above `do`;
- the MIDI pitch `class + semitones + 12 * octave`, which exists from 0 to 127 only.

Does not own: accidentals, octaves or durations of a note in a score.
-/

namespace Solfege

/-- A syllable of the scale, or a rest. The first syllable, written `do`, bears its
older name `ut` here. -/
inductive Syllable where
  | ut
  | re
  | mi
  | fa
  | sol
  | la
  | si
  | rest
deriving DecidableEq, Repr, Inhabited

namespace Syllable

/-- Every syllable, in the order of the scale, and the rest. -/
def all : List Syllable := [ut, re, mi, fa, sol, la, si, rest]

def written : Syllable → String
  | ut => "do"
  | re => "re"
  | mi => "mi"
  | fa => "fa"
  | sol => "sol"
  | la => "la"
  | si => "si"
  | rest => "r"

/-- The syllable as a value of a printed document: a rest is spelled out. -/
def label : Syllable → String
  | rest => "rest"
  | syllable => syllable.written

def ofWritten? (word : String) : Option Syllable :=
  all.find? fun syllable => syllable.written = word

def isRest : Syllable → Bool
  | rest => true
  | _ => false

/-- Semitones above `do` within one octave. A rest is put on 0. -/
def pitchClass : Syllable → Nat
  | ut => 0
  | re => 2
  | mi => 4
  | fa => 5
  | sol => 7
  | la => 9
  | si => 11
  | rest => 0

end Syllable

/-- A pitch of the MIDI standard. -/
abbrev MidiPitch := Fin 128

namespace MidiPitch

/-- The octave that sounds where a score never sets one. -/
def defaultOctave : Int := 4

/-- The number of semitones that a sounded syllable lies above MIDI pitch 0. -/
def height (name : Syllable) (semitones octave : Int) : Int :=
  name.pitchClass + semitones + 12 * octave

/-- The MIDI pitch of a syllable, if its height is one. -/
def of? (name : Syllable) (semitones octave : Int) : Option MidiPitch :=
  let value := height name semitones octave
  if inRange : 0 ≤ value ∧ value < 128 then
    some ⟨value.toNat, by omega⟩
  else
    none

/-- A pitch exists exactly for the heights from 0 to 127. -/
theorem of?_isSome_iff (name : Syllable) (semitones octave : Int) :
    (of? name semitones octave).isSome ↔
      0 ≤ height name semitones octave ∧ height name semitones octave ≤ 127 := by
  unfold of?
  dsimp only
  split <;> simp <;> omega

end MidiPitch

end Solfege
