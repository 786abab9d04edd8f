import Solfege.Compiler
import Solfege.Proofs.Evaluation.Agreement
import Solfege.Proofs.Outline
import Solfege.Proofs.Placeholder.Expansion
import Solfege.Proofs.Placeholder.Reading

/-!
Contract: what compiles can be played.

Owns:
- the proof that a compiled score consists of playable expressions only, has the outline
  that was written and has no problems;
- what the check of instruments adds to this.

Does not own: the pitches of notes.

Inlining leaves settled expressions, and those are playable except for placeholders. A
placeholder comes with a problem, and a score with problems is not expanded at all.
-/

namespace Solfege

open Expression (Playable Settled placeholdersOfAll)

theorem Expression.Settled.playable_of_free {expression : Expression}
    (settled : Settled expression) (free : expression.placeholders = 0) :
    Playable expression := by
  cases settled with
  | playable playable => exact playable
  | placeholder token => contradiction

/-- A movement whose value no placeholder goes into is playable. -/
theorem Movement.EvaluatesTo.playable {score : Score} {movement : Movement}
    {value : List Expression} (evaluates : movement.EvaluatesTo score value)
    (bodies : ∀ definition ∈ score.macros, definition.placeholders = 0)
    (free : movement.placeholders = 0) : ∀ expression ∈ value, Playable expression := by
  obtain ⟨values, each, rfl⟩ := evaluates
  have settled := List.forall_mem_flatten.mpr (each.settled Environment.isSettled_nil)
  have nowhere : placeholdersOfAll values.flatten = 0 :=
    placeholdersOfAll_flatten (each.free
      (fun _ definition found => bodies definition (Score.mem_of_macro? found))
      Environment.isFree_nil free)
  rw [Expression.placeholdersOfAll_eq_zero_iff] at nowhere
  exact fun expression member =>
    (settled expression member).playable_of_free (nowhere expression member)

/-- A score that no placeholder is in and that is expanded without problems is playable. -/
theorem Score.playable_of_expand {score : Score} {limit : Nat}
    (free : score.placeholders = 0) (silent : (score.expand limit).2 = []) :
    ∀ movement ∈ (score.expand limit).1.movements,
      ∀ expression ∈ movement.expressions, Playable expression := by
  have unrolled := unroll_silent_of_expand silent
  rw [expand_of_silent unrolled] at silent ⊢
  have spliced := placeholders_flatten (placeholders_unroll limit free)
  rw [placeholders_eq_zero_iff] at spliced
  intro movement member
  obtain ⟨before, beforeMember, rfl⟩ := exists_of_mem_inlineMacros member
  have became := Movement.evaluatesTo_of_silent
    (inlineMacros_snd_eq_nil_iff.mp silent before beforeMember)
  exact became.playable spliced.1 (spliced.2 before beforeMember)

/-- A score with a problem that keeps it from being played is found out. -/
theorem Score.isSome_programNumber?_of_playingProblems {score : Score}
    (silent : score.playingProblems = []) :
    ∀ movement ∈ score.movements,
      (Instrument.programNumber? movement.instrument).isSome = true := by
  intro movement member
  have none := List.flatMap_eq_nil_iff.mp silent movement member
  have unproblematic := (List.append_eq_nil_iff.mp none).1
  rw [Option.toList_eq_nil_iff] at unproblematic
  unfold Instrument.instrumentProblem? at unproblematic
  split at unproblematic
  · rename_i number found
    rw [found]
    rfl
  · contradiction

theorem Compiler.placeholders_le_diagnostics {settings : Settings} {source : String}
    {written : Score} (wasRead : read settings source = .ok written) :
    written.placeholders ≤ written.diagnostics.length := by
  unfold read at wasRead
  split at wasRead
  · contradiction
  · exact Score.placeholders_le_diagnostics wasRead

/-! ### Main result -/

/-- **What compiles can be played.** A compiled score has no problems and the tracks and
movements that were written. Its movements consist of notes, chords of notes, holds around
one of those, releases, directives and bars. Where instruments are checked, each of its
instruments has a program. -/
theorem compile_playable {settings : Settings} {source : String} {compiled : Score}
    (success : Compiler.compile settings source = .ok compiled) :
    compiled.diagnostics = [] ∧
      (∃ written, Compiler.read settings source = .ok written ∧
        compiled.outline = written.outline) ∧
      (∀ movement ∈ compiled.movements, ∀ expression ∈ movement.expressions,
        Playable expression) ∧
      (settings.checkInstruments = true → ∀ movement ∈ compiled.movements,
        (Instrument.programNumber? movement.instrument).isSome = true) := by
  obtain ⟨written, wasRead, clean, finished⟩ := Compiler.compile_eq_ok_iff.mp success
  obtain ⟨silent, checked, rfl⟩ := Compiler.finish_eq_ok_iff.mp finished
  have free : written.placeholders = 0 := by
    have few := Compiler.placeholders_le_diagnostics wasRead
    rw [clean] at few
    exact Nat.le_zero.mp few
  refine ⟨?_, ⟨written, wasRead, written.outline_expand _⟩, ?_, ?_⟩
  · rw [Score.diagnostics_expand]
    exact clean
  · exact Score.playable_of_expand free silent
  · exact fun on => Score.isSome_programNumber?_of_playingProblems (checked on)

/-! ### A call inside a hold -/

/-- A note without octave or duration, at its place in a source text. -/
def noteAt (name : Syllable) (written : String) (line column : Nat) : Note :=
  ⟨name, 0, none, none, ⟨written, .note name, ⟨line, column⟩⟩⟩

/-- What the movement of this source text becomes: the call brings the note of its macro along,
the hold and the release stay where they are, and nothing else is left. -/
theorem compile_playable_call :
    ∃ compiled, Compiler.compile Settings.standard "m(x) = x do\npiano: m(re) (sol m(mi))" =
        .ok compiled ∧
      compiled.diagnostics = [] ∧
      compiled.movements.map Movement.expressions =
        [[.note (noteAt .re "re" 2 10), .note (noteAt .ut "do" 1 10),
          .hold (.note (noteAt .sol "sol" 2 15)) ⟨"(", .leftParen, ⟨2, 14⟩⟩,
          .note (noteAt .mi "mi" 2 21), .note (noteAt .ut "do" 1 10),
          .release ⟨")", .rightParen, ⟨2, 24⟩⟩]] ∧
      (∀ movement ∈ compiled.movements, ∀ expression ∈ movement.expressions,
        Playable expression) ∧
      ∀ movement ∈ compiled.movements,
        (Instrument.programNumber? movement.instrument).isSome = true := by
  have compiles : (Compiler.compile Settings.standard
      "m(x) = x do\npiano: m(re) (sol m(mi))").isOk = true := by
    decide +kernel
  have expressions : (Compiler.compile Settings.standard
      "m(x) = x do\npiano: m(re) (sol m(mi))").toOption.map
        (fun compiled => compiled.movements.map Movement.expressions) = some
        [[.note (noteAt .re "re" 2 10), .note (noteAt .ut "do" 1 10),
          .hold (.note (noteAt .sol "sol" 2 15)) ⟨"(", .leftParen, ⟨2, 14⟩⟩,
          .note (noteAt .mi "mi" 2 21), .note (noteAt .ut "do" 1 10),
          .release ⟨")", .rightParen, ⟨2, 24⟩⟩]] := by
    decide +kernel
  obtain ⟨compiled, success⟩ := Compiler.exists_eq_ok_of_isOk compiles
  obtain ⟨clean, _, playable, instruments⟩ := compile_playable success
  rw [success] at expressions
  exact ⟨compiled, success, clean, Option.some.inj expressions, playable, instruments rfl⟩

end Solfege
