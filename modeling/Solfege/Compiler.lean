import Solfege.Instrument.Check
import Solfege.Settings.Basic
import Solfege.Token.Lexeme

/-!
Contract: from a source text to a score that can be played.

Owns:
- the sequence of the stages: tokens, statements, expansion, the check of instruments;
- the rule that the first stage with problems ends the compilation and is the only one
  to report any.

Does not own: what any stage does.
-/

namespace Solfege.Compiler

/-- Reads a source text. The score holds the problems of its statements; an error is a
character that begins no token, or a fault of the reader. -/
def read (settings : Settings) (source : String) : Except Diagnostic Score :=
  match Token.tokenize source with
  | .error diagnostic => .error diagnostic
  | .ok tokens => Score.ofTokens tokens settings.defaultTrack

/-- Expands a score that was read without problems and checks that it can be played. -/
def finish (settings : Settings) (score : Score) : Except (List Diagnostic) Score :=
  let (expanded, problems) := score.expand settings.maxExpansion
  if !problems.isEmpty then
    .error problems
  else if settings.checkInstruments && !expanded.playingProblems.isEmpty then
    .error expanded.playingProblems
  else
    .ok expanded

def compile (settings : Settings) (source : String) : Except (List Diagnostic) Score :=
  match read settings source with
  | .error diagnostic => .error [diagnostic]
  | .ok score =>
      if score.hasErrors then
        .error score.diagnostics
      else
        finish settings score

/-! ### When a stage lets a score pass -/

theorem finish_eq_ok_iff {settings : Settings} {score finished : Score} :
    finish settings score = .ok finished ↔
      (score.expand settings.maxExpansion).2 = [] ∧
        (settings.checkInstruments = true →
          (score.expand settings.maxExpansion).1.playingProblems = []) ∧
        (score.expand settings.maxExpansion).1 = finished := by
  unfold finish
  dsimp only
  by_cases silent : (score.expand settings.maxExpansion).2 = []
  · rw [if_neg (by simp [silent])]
    by_cases playable : settings.checkInstruments = true →
        (score.expand settings.maxExpansion).1.playingProblems = []
    · rw [if_neg (by simpa using playable), Except.ok.injEq]
      exact ⟨fun same => ⟨silent, playable, same⟩, fun passed => passed.2.2⟩
    · rw [if_pos (by simpa using playable)]
      constructor
      · intro impossible
        contradiction
      · intro passed
        exact absurd passed.2.1 playable
  · rw [if_pos (by simp [silent])]
    simp [silent]

/-- A source text compiles if, and only if, it is read without problems and every later
stage lets it pass. -/
theorem compile_eq_ok_iff {settings : Settings} {source : String} {compiled : Score} :
    compile settings source = .ok compiled ↔
      ∃ score, read settings source = .ok score ∧ score.diagnostics = [] ∧
        finish settings score = .ok compiled := by
  unfold compile
  cases read settings source with
  | error diagnostic => simp
  | ok score =>
      by_cases clean : score.diagnostics = []
      · simp [Score.hasErrors, clean]
      · simp [Score.hasErrors, clean]

theorem toOption_read_eq_some_iff {settings : Settings} {source : String} {score : Score} :
    (read settings source).toOption = some score ↔ read settings source = .ok score := by
  cases read settings source <;> simp [Except.toOption]

/-- Which score a source is read as can be computed. -/
instance (settings : Settings) (source : String) (score : Score) :
    Decidable (read settings source = .ok score) :=
  decidable_of_iff _ toOption_read_eq_some_iff

theorem exists_tokens_of_read {settings : Settings} {source : String} {score : Score}
    (wasRead : read settings source = .ok score) :
    ∃ tokens, Token.tokenize source = .ok tokens ∧
      Score.ofTokens tokens settings.defaultTrack = .ok score := by
  unfold read at wasRead
  cases tokenized : Token.tokenize source with
  | error diagnostic =>
      rw [tokenized] at wasRead
      contradiction
  | ok tokens =>
      rw [tokenized] at wasRead
      exact ⟨tokens, rfl, wasRead⟩

theorem exists_eq_ok_of_isOk {settings : Settings} {source : String}
    (compiles : (compile settings source).isOk = true) :
    ∃ compiled, compile settings source = .ok compiled := by
  cases result : compile settings source with
  | error diagnostics =>
      rw [result] at compiles
      contradiction
  | ok compiled => exact ⟨compiled, rfl⟩

end Solfege.Compiler
