import Solfege.Compiler
import Solfege.Proofs.Conservation.Basic
import Solfege.Proofs.FixedPoint.Score

/-!
Contract: the check of pitches on expanded scores.

Owns:
- the notes of expressions at any depth, and when a note is out of range, told without a
  ceiling for octaves;
- the proof that on what expansion leaves the check meets every note once, in reading order;
- the problems of an expanded score in full, and what this says about a score that compiles.

Does not own: notes without an octave of their own, and octaves above the ceiling of the
check, for which a note may sound although it passed.
-/

namespace Solfege

open Expression (Playable Settled Sounding)

/-! ### Notes -/

/-- The height of a note that has an octave of its own and is no rest. -/
def Note.height? (note : Note) : Option Int :=
  if note.name.isRest then
    none
  else
    note.octave.map fun octave => MidiPitch.height note.name note.semitones octave

/-- The note has a height, and no MIDI pitch is that high or that low. -/
def Note.isOutOfRange (note : Note) : Bool :=
  note.height?.any fun height => height < 0 || 127 < height

/-- What is reported of a note that is out of range. -/
def Note.rangeProblem (note : Note) : Diagnostic :=
  Diagnostic.instrumentAt note.token (.pitchOutOfRange note.name (note.octave.getD 0))

/-- The octave of the note, if it has one, is below the ceiling of the check. -/
def Note.IsLow (note : Note) : Prop :=
  ∀ octave, note.octave = some octave → octave ≤ Instrument.octaveCeiling

namespace Expression

/-- The note that an expression is, or the notes that a chord has among its members. -/
def ownNotes : Expression → List Note
  | .note written => [written]
  | .chord members _ =>
      members.filterMap fun
        | .note written => some written
        | .reference _ _ => none
  | _ => []

/-- The notes of an expression and of all its parts, in reading order. -/
def notes (expression : Expression) : List Note :=
  expression.nodes.flatMap ownNotes

end Expression

/-- The notes of a movement at any depth, in reading order. -/
def Movement.notes (movement : Movement) : List Note :=
  movement.expressions.flatMap Expression.notes

namespace Instrument

/-! ### What the check finds -/

/-- Below the ceiling the check of a note is exact. -/
theorem noteProblem?_of_low {note : Note} (low : note.IsLow) :
    noteProblem? note = if note.isOutOfRange then some note.rangeProblem else none := by
  unfold noteProblem? Note.isOutOfRange Note.height? Note.rangeProblem
  cases written : note.octave with
  | none => simp
  | some octave =>
      by_cases rest : note.name.isRest = true
      · simp [rest]
      · have same : min octave octaveCeiling = octave := Nat.min_eq_left (low octave written)
        have sounds := MidiPitch.of?_isSome_iff note.name note.semitones octave
        cases pitch : MidiPitch.of? note.name note.semitones octave with
        | none =>
            have outside : ¬(0 ≤ MidiPitch.height note.name note.semitones octave ∧
                MidiPitch.height note.name note.semitones octave ≤ 127) := by
              rw [← sounds, pitch]
              decide
            have found : MidiPitch.height note.name note.semitones octave < 0 ∨
                127 < MidiPitch.height note.name note.semitones octave := by
              omega
            simp [rest, same, pitch, found]
        | some found =>
            rw [pitch] at sounds
            have inside := sounds.mp rfl
            have nowhere : ¬(MidiPitch.height note.name note.semitones octave < 0 ∨
                127 < MidiPitch.height note.name note.semitones octave) := by
              omega
            simp [rest, same, pitch, nowhere]

theorem expressionProblems_of_sounding {expression : Expression}
    (sounding : Sounding expression) :
    expressionProblems expression = expression.notes.filterMap noteProblem? := by
  cases sounding with
  | note written => cases found : noteProblem? written <;>
      simp [expressionProblems, Expression.notes, Expression.nodes, Expression.ownNotes, found]
  | chord members token _ =>
      have whole : (Expression.chord members token).notes =
          (Expression.chord members token).ownNotes := List.append_nil _
      rw [whole]
      unfold expressionProblems Expression.ownNotes
      rw [List.filterMap_filterMap]
      congr 1
      funext member
      cases member <;> rfl

/-- Where an expression is expanded, no note is hidden from the check, and none is met
twice. -/
theorem expressionProblems_of_settled {expression : Expression}
    (settled : Settled expression) :
    expressionProblems expression = expression.notes.filterMap noteProblem? := by
  cases settled with
  | placeholder token => rfl
  | playable playable =>
      cases playable with
      | sounding sounding => exact expressionProblems_of_sounding sounding
      | @hold inner sounding token =>
          show expressionProblems inner = inner.notes.filterMap noteProblem?
          exact expressionProblems_of_sounding sounding
      | release token => rfl
      | directive directive token => rfl
      | bar token => rfl

/-- The notes that are out of range, each with its problem. -/
theorem filterMap_noteProblem? {notes : List Note} (low : ∀ note ∈ notes, note.IsLow) :
    notes.filterMap noteProblem? = (notes.filter Note.isOutOfRange).map Note.rangeProblem := by
  induction notes with
  | nil => rfl
  | cons first rest inductionHypothesis =>
      rcases List.forall_mem_cons.mp low with ⟨firstLow, restLow⟩
      have here := noteProblem?_of_low firstLow
      rw [List.filterMap_cons, here, inductionHypothesis restLow]
      by_cases outOfRange : first.isOutOfRange = true <;> simp [outOfRange]

/-- The notes of an expanded movement are checked one after the other. -/
theorem flatMap_expressionProblems {movement : Movement}
    (settled : ∀ expression ∈ movement.expressions, Settled expression)
    (low : ∀ note ∈ movement.notes, note.IsLow) :
    movement.expressions.flatMap expressionProblems =
      (movement.notes.filter Note.isOutOfRange).map Note.rangeProblem := by
  calc movement.expressions.flatMap expressionProblems
      = movement.expressions.flatMap fun expression =>
          expression.notes.filterMap noteProblem? := by
        apply List.flatMap_congr
        intro expression member
        exact expressionProblems_of_settled (settled expression member)
    _ = movement.notes.filterMap noteProblem? := by
        rw [Movement.notes, List.filterMap_flatMap]
    _ = _ := filterMap_noteProblem? low

end Instrument

/-! ### Expanded scores -/

/-- Expansion without problems leaves nothing but settled expressions. -/
theorem Score.settled_of_mem_expand {score : Score} {limit : Nat}
    (silent : (score.expand limit).2 = []) :
    ∀ movement ∈ (score.expand limit).1.movements,
      ∀ expression ∈ movement.expressions, Settled expression := by
  rw [expand_of_silent (unroll_silent_of_expand silent)]
  intro movement member
  exact settled_of_mem_inlineMacros member

/-- What is reported of an instrument that has no program. -/
def Movement.instrumentProblem (movement : Movement) : Diagnostic :=
  Diagnostic.instrumentAt movement.token (.unknownInstrument movement.instrument)

theorem Instrument.toList_instrumentProblem? (movement : Movement) :
    (instrumentProblem? movement).toList =
      if (programNumber? movement.instrument).isNone then [movement.instrumentProblem] else [] := by
  unfold instrumentProblem? Movement.instrumentProblem
  cases programNumber? movement.instrument <;> rfl

/-- Where a movement has no problem, none of its notes has one. -/
theorem Score.noteProblem?_of_playingProblems {score : Score} {movement : Movement}
    (silent : score.playingProblems = []) (member : movement ∈ score.movements)
    (settled : ∀ expression ∈ movement.expressions, Settled expression) :
    ∀ note ∈ movement.notes, Instrument.noteProblem? note = none := by
  have ofMovement := List.flatMap_eq_nil_iff.mp silent movement member
  have ofNotes := (List.append_eq_nil_iff.mp ofMovement).2
  intro note noteMember
  rcases List.mem_flatMap.mp noteMember with ⟨expression, inMovement, inExpression⟩
  have nothing := List.flatMap_eq_nil_iff.mp ofNotes expression inMovement
  rw [Instrument.expressionProblems_of_settled (settled expression inMovement)] at nothing
  exact List.filterMap_eq_nil_iff.mp nothing note inExpression

/-- A note below the ceiling that passes the check has a MIDI pitch. -/
theorem Note.inRange_of_noteProblem? {note : Note} {octave : Nat}
    (written : note.octave = some octave) (low : octave ≤ Instrument.octaveCeiling)
    (sounds : note.name.isRest = false) (silent : Instrument.noteProblem? note = none) :
    0 ≤ MidiPitch.height note.name note.semitones octave ∧
      MidiPitch.height note.name note.semitones octave ≤ 127 := by
  have isLow : note.IsLow := by
    intro other same
    rw [written] at same
    rwa [← Option.some.inj same]
  rw [Instrument.noteProblem?_of_low isLow] at silent
  have inside : note.isOutOfRange = false := by
    by_contra outOfRange
    simp [outOfRange] at silent
  simp [isOutOfRange, height?, sounds, written] at inside
  omega

/-! ### Main result -/

/-- **No pitch out of range leaves the compiler.** In a score that compiles with the check
of instruments, a note at any depth that is no rest and has an octave of its own up to the
ceiling is as high as some MIDI pitch. On every score that is expanded without problems and
whose octaves are that low, the check finds, movement by movement, the instrument if it has
no program, then each note out of range in reading order, and nothing else. -/
theorem pitches_in_range :
    (∀ (settings : Settings) (source : String) (compiled : Score),
      settings.checkInstruments = true → Compiler.compile settings source = .ok compiled →
        ∀ movement ∈ compiled.movements, ∀ note ∈ movement.notes, ∀ octave,
          note.octave = some octave → octave ≤ 1000 → note.name.isRest = false →
            0 ≤ MidiPitch.height note.name note.semitones octave ∧
              MidiPitch.height note.name note.semitones octave ≤ 127) ∧
      ∀ (score : Score) (limit : Nat), (score.expand limit).2 = [] →
        (∀ movement ∈ (score.expand limit).1.movements, ∀ note ∈ movement.notes, ∀ octave,
          note.octave = some octave → octave ≤ 1000) →
        (score.expand limit).1.playingProblems =
          (score.expand limit).1.movements.flatMap fun movement =>
            (if (Instrument.programNumber? movement.instrument).isNone then
              [movement.instrumentProblem] else []) ++
            (movement.notes.filter Note.isOutOfRange).map Note.rangeProblem := by
  constructor
  · intro settings source compiled checking success movement member note noteMember octave
      written low sounds
    rcases Compiler.compile_eq_ok_iff.mp success with ⟨score, _, _, finished⟩
    rcases Compiler.finish_eq_ok_iff.mp finished with ⟨silent, checked, rfl⟩
    have passed := Score.noteProblem?_of_playingProblems (checked checking) member
      (Score.settled_of_mem_expand silent movement member)
    exact Note.inRange_of_noteProblem? written low sounds (passed note noteMember)
  · intro score limit silent low
    apply List.flatMap_congr
    intro movement member
    unfold Instrument.movementProblems
    rw [Instrument.toList_instrumentProblem?, Instrument.flatMap_expressionProblems
      (Score.settled_of_mem_expand silent movement member) (low movement member)]

/-- A held chord for an instrument without a program, in which one note is too high. -/
def Score.harp : Score where
  metadata := []
  macros := []
  tracks := [⟨"main", [⟨"harp", none, [.hold (.chord
    [.note ⟨.ut, 0, some 4, none, default⟩, .note ⟨.la, 0, some 10, none, default⟩]
    default) default], default⟩]⟩]
  names := .empty
  diagnostics := []

theorem pitches_in_range_harp :
    (∃ compiled, Compiler.compile Settings.standard "m(x) = x/mi.3\npiano: m(si-.9) r.40" =
        .ok compiled ∧
      ∀ movement ∈ compiled.movements, ∀ note ∈ movement.notes, ∀ octave,
        note.octave = some octave → octave ≤ 1000 → note.name.isRest = false →
          0 ≤ MidiPitch.height note.name note.semitones octave ∧
            MidiPitch.height note.name note.semitones octave ≤ 127) ∧
      (Score.harp.expand 8).1.playingProblems =
        [Diagnostic.instrumentAt default (.unknownInstrument "harp"),
          Diagnostic.instrumentAt default (.pitchOutOfRange .la 10)] := by
  constructor
  · have compiles : (Compiler.compile Settings.standard
        "m(x) = x/mi.3\npiano: m(si-.9) r.40").isOk = true := by
      decide +kernel
    rcases Compiler.exists_eq_ok_of_isOk compiles with ⟨compiled, success⟩
    exact ⟨compiled, success, pitches_in_range.1 _ _ _ rfl success⟩
  · have unchanged : (Score.harp.expand 8).1.movements = Score.harp.movements := by
      rfl
    rw [pitches_in_range.2 Score.harp 8 (by decide +kernel), unchanged]
    · decide +kernel
    · rw [unchanged]
      intro movement member note noteMember octave written
      have known : note.octave = some 4 ∨ note.octave = some 10 := by
        rcases List.mem_singleton.mp member with rfl
        rcases List.mem_cons.mp noteMember with rfl | others
        · exact .inl rfl
        · rcases List.mem_singleton.mp others with rfl
          exact .inr rfl
      rcases known with four | ten
      · rw [four] at written
        cases written
        decide
      · rw [ten] at written
        cases written
        decide

end Solfege
