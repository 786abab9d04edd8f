import Solfege.Proofs.Pitch

/-!
Contract: the check of pitches on octaves above its ceiling.

Owns:
- the verdict of the check on any note that has an octave of its own, told by the height that
  the note has with its octave lowered to the ceiling;
- the notes on which lowering the octave changes the verdict, told by octave and accidentals;
- the proof that the check is exact on all other notes and on no others.

Does not own: where in a score the notes stand.

Above the ceiling a note is out of range unless flats outweigh its octave. A run of accidentals
has no bound, so there are such notes. Lowering the octave moves all of them down by the same
number of semitones, some into the range and some out of it.
-/

namespace Solfege

/-- The semitones that the note lies above the first `do` of its octave, below it if negative. -/
def Note.offset (note : Note) : Int :=
  note.name.pitchClass + note.semitones

/-- Above the ceiling, the octave and the flats of the note nearly cancel out: either from the
ceiling the flats lead into the range, and from the octave they do not get there; or from the
octave they lead into the range, and from the ceiling they lead out of it. -/
def Note.IsMisjudged (note : Note) (octave : Nat) : Prop :=
  1000 < octave ∧
    ((-12000 ≤ note.offset ∧ note.offset ≤ -11873 ∧ 127 < note.offset + 12 * octave) ∨
      (note.offset < -12000 ∧ 0 ≤ note.offset + 12 * octave ∧ note.offset + 12 * octave ≤ 127))

instance (note : Note) (octave : Nat) : Decidable (note.IsMisjudged octave) := by
  unfold Note.IsMisjudged
  infer_instance

namespace Instrument

theorem height_eq_offset (note : Note) (octave : Nat) :
    MidiPitch.height note.name note.semitones octave = note.offset + 12 * octave :=
  rfl

/-- A sounding note passes exactly if it has a pitch with its octave lowered to the ceiling. -/
theorem noteProblem?_of_octave {note : Note} {octave : Nat} (written : note.octave = some octave)
    (sounds : note.name.isRest = false) :
    noteProblem? note =
      if (MidiPitch.of? note.name note.semitones (min octave octaveCeiling : Nat)).isSome then none
      else some note.rangeProblem := by
  unfold noteProblem? Note.rangeProblem
  rw [written]
  dsimp only [Option.getD_some]
  rw [if_neg (by simp [sounds])]
  cases MidiPitch.of? note.name note.semitones (min octave octaveCeiling : Nat) <;> rfl

/-- Up to the ceiling nothing is lowered. Above it, the note has the offset with which it was
written on the ceiling instead of its octave. -/
theorem isSome_of?_ceiling_iff (note : Note) (octave : Nat) :
    ((MidiPitch.of? note.name note.semitones (min octave octaveCeiling : Nat)).isSome ↔
        (MidiPitch.of? note.name note.semitones octave).isSome) ↔
      ¬note.IsMisjudged octave := by
  rw [MidiPitch.of?_isSome_iff, MidiPitch.of?_isSome_iff, height_eq_offset, height_eq_offset]
  unfold Note.IsMisjudged
  generalize note.offset = offset
  rcases Nat.le_total octave octaveCeiling with low | high
  · rw [Nat.min_eq_left low]
    unfold octaveCeiling at low
    exact iff_of_true Iff.rfl fun misjudged => by omega
  · rw [Nat.min_eq_right high]
    unfold octaveCeiling at high ⊢
    omega

end Instrument

/-! ### Main result -/

/-- **The check of pitches is exact but for notes that it misjudges.** A note that is no rest and
has an octave of its own is reported as out of range or not at all. It is reported just if its
height is not one of a MIDI pitch, unless it is misjudged; then it is the other way round.
Misjudged are the notes on which lowering the octave to the ceiling changes whether there is a
pitch. Their octaves are above the ceiling, and they have thousands of flats. -/
theorem pitch_check_exact_iff {note : Note} {octave : Nat} (written : note.octave = some octave)
    (sounds : note.name.isRest = false) :
    (Instrument.noteProblem? note = none ∨
        Instrument.noteProblem? note = some note.rangeProblem) ∧
      ((Instrument.noteProblem? note = some note.rangeProblem ↔
          MidiPitch.height note.name note.semitones octave < 0 ∨
            127 < MidiPitch.height note.name note.semitones octave) ↔
        ¬note.IsMisjudged octave) ∧
      (((MidiPitch.of? note.name note.semitones (min octave 1000 : Nat)).isSome ↔
          (MidiPitch.of? note.name note.semitones octave).isSome) ↔
        ¬note.IsMisjudged octave) ∧
      (note.IsMisjudged octave → 1000 < octave ∧ note.semitones ≤ -11873) := by
  have verdict := Instrument.noteProblem?_of_octave written sounds
  have ceiling := Instrument.isSome_of?_ceiling_iff note octave
  have exact := MidiPitch.of?_isSome_iff note.name note.semitones octave
  refine ⟨?_, ?_, ceiling, ?_⟩
  · rw [verdict]
    split
    · exact .inl rfl
    · exact .inr rfl
  · have outside : (MidiPitch.height note.name note.semitones octave < 0 ∨
        127 < MidiPitch.height note.name note.semitones octave) ↔
        ¬(MidiPitch.of? note.name note.semitones octave).isSome := by
      rw [exact]
      omega
    rw [outside, ← ceiling, verdict]
    cases (MidiPitch.of? note.name note.semitones
      (min octave Instrument.octaveCeiling : Nat)).isSome <;>
      cases (MidiPitch.of? note.name note.semitones octave).isSome <;> simp
  · rintro ⟨above, flats⟩
    have fromDo : 0 ≤ (note.name.pitchClass : Int) := Int.natCast_nonneg _
    unfold Note.offset at flats
    omega

/-- A note in an octave far above the ceiling, with as many flats as lead from the ceiling to the
lowest pitch. -/
def Note.sunken : Note :=
  ⟨.ut, -12000, some 1100, none, default⟩

theorem pitch_check_exact_iff_sunken :
    Note.sunken.octave = some 1100 ∧ Note.sunken.name.isRest = false ∧
      Note.sunken.IsMisjudged 1100 ∧ Instrument.noteProblem? Note.sunken = none ∧
      ((Instrument.noteProblem? Note.sunken = some Note.sunken.rangeProblem ↔
          MidiPitch.height .ut (-12000) 1100 < 0 ∨ 127 < MidiPitch.height .ut (-12000) 1100) ↔
        ¬Note.sunken.IsMisjudged 1100) :=
  ⟨rfl, rfl, by decide, by decide,
    (pitch_check_exact_iff (show Note.sunken.octave = some 1100 from rfl) rfl).2.1⟩

/-- The check is not exact on all octaves: the sunken note is more than a thousand semitones too
high, and nothing is reported. -/
theorem not_pitch_check_exact :
    ¬∀ (note : Note) (octave : Nat), note.octave = some octave → note.name.isRest = false →
      octave < Token.numberBound →
        (Instrument.noteProblem? note ≠ none ↔
          MidiPitch.height note.name note.semitones octave < 0 ∨
            127 < MidiPitch.height note.name note.semitones octave) := by
  intro exact
  have reported := (exact Note.sunken 1100 rfl rfl (by decide)).mpr (.inr (by decide))
  exact reported (by decide)

end Solfege
