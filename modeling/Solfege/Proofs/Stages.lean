import Solfege.CommandLine.Serialization
import Solfege.Proofs.Names.Expansion
import Solfege.Proofs.Provenance.Problems

/-!
Contract: a compilation that fails reports the problems of one stage.

Owns:
- the kinds of problems that each stage can have;
- the proof that what a compilation reports is what one stage found, and that it is
  something;
- the consequence for the command line, which never blames itself for a score.

Does not own: which source text has which problem.
-/

namespace Solfege

/-! ### Kinds -/

theorem Diagnostic.IsExpansion.kind_eq {diagnostic : Diagnostic}
    (isExpansion : diagnostic.IsExpansion) : diagnostic.kind = .resolution := by
  obtain ⟨problem, same⟩ := isExpansion
  unfold Diagnostic.kind
  rw [same]

theorem Diagnostic.isInternal_eq_false {diagnostic : Diagnostic}
    (kind : diagnostic.kind ≠ .internal) : diagnostic.isInternal = false :=
  decide_eq_false kind

theorem Diagnostic.IsTextual.not_isInternal {diagnostic : Diagnostic}
    (textual : diagnostic.IsTextual) : diagnostic.isInternal = false := by
  apply isInternal_eq_false
  rcases textual with kind | kind <;> simp [kind]

/-- Tokens fail at a character only. -/
theorem Token.kind_of_tokenize {source : String} {diagnostic : Diagnostic}
    (failed : tokenize source = .error diagnostic) : diagnostic.kind = .lexical := by
  unfold tokenize at failed
  dsimp only at failed
  split at failed
  · contradiction
  · rw [← Except.error.inj failed]
    rfl

namespace Instrument

theorem kind_of_noteProblem? {note : Note} {diagnostic : Diagnostic}
    (found : noteProblem? note = some diagnostic) : diagnostic.kind = .instrument := by
  unfold noteProblem? at found
  split at found
  · contradiction
  · split at found
    · contradiction
    · split at found
      · contradiction
      · rw [← Option.some.inj found]
        rfl

theorem kind_of_memberProblem? {member : ChordMember} {diagnostic : Diagnostic}
    (found : memberProblem? member = some diagnostic) : diagnostic.kind = .instrument := by
  cases member with
  | note written => exact kind_of_noteProblem? found
  | reference name token => contradiction

theorem kind_of_mem_expressionProblems {expression : Expression} :
    ∀ diagnostic ∈ expressionProblems expression, diagnostic.kind = .instrument := by
  induction expression using Expression.rec (motive_2 := fun _ => True) with
  | note written =>
      intro diagnostic member
      exact kind_of_noteProblem? (Option.mem_toList.mp member)
  | chord members token =>
      intro diagnostic member
      obtain ⟨_, _, found⟩ := List.mem_filterMap.mp member
      exact kind_of_memberProblem? found
  | hold inner token inductionHypothesis => exact inductionHypothesis
  | nil => trivial
  | cons => trivial
  | _ => exact List.forall_mem_nil _

theorem kind_of_instrumentProblem? {movement : Movement} {diagnostic : Diagnostic}
    (found : instrumentProblem? movement = some diagnostic) :
    diagnostic.kind = .instrument := by
  unfold instrumentProblem? at found
  split at found
  · contradiction
  · rw [← Option.some.inj found]
    rfl

end Instrument

namespace Score

theorem kind_of_mem_playingProblems {score : Score} :
    ∀ diagnostic ∈ score.playingProblems, diagnostic.kind = .instrument := by
  intro diagnostic member
  obtain ⟨movement, _, found⟩ := List.mem_flatMap.mp member
  rcases List.mem_append.mp found with ofInstrument | ofNotes
  · exact Instrument.kind_of_instrumentProblem? (Option.mem_toList.mp ofInstrument)
  · obtain ⟨expression, _, ofExpression⟩ := List.mem_flatMap.mp ofNotes
    exact Instrument.kind_of_mem_expressionProblems diagnostic ofExpression

/-- Expanding a score whose names have their macros finds problems of expansion only. -/
theorem Backed.kind_of_mem_expand {score : Score} (backed : score.Backed) (limit : Nat) :
    ∀ diagnostic ∈ (score.expand limit).2, diagnostic.kind = .resolution := by
  have unrolled := backed.isExpansion_after (.repetitions limit)
  have inlined := ((backed.after (.repetitions limit)).after .groups).isExpansion_inlineMacros limit
  unfold expand
  dsimp only
  split
  · exact fun diagnostic member => (inlined diagnostic member).kind_eq
  · exact fun diagnostic member => (unrolled diagnostic member).kind_eq

end Score

/-! ### Stages -/

namespace Compiler

variable {settings : Settings} {source : String}

/-- What keeps a source text from being read is a character that begins no token. -/
theorem tokenize_of_read {diagnostic : Diagnostic}
    (failed : read settings source = .error diagnostic) :
    Token.tokenize source = .error diagnostic := by
  unfold read at failed
  cases result : Token.tokenize source with
  | error found =>
      rw [result] at failed
      rw [← Except.error.inj failed]
  | ok tokens =>
      obtain ⟨statements, diagnostics, wasRead, _⟩ :=
        Score.exists_ofTokens_eq_ok tokens settings.defaultTrack
      rw [result] at failed
      dsimp only at failed
      rw [wasRead] at failed
      contradiction

theorem isTextual_of_read {score : Score} (wasRead : read settings source = .ok score) :
    ∀ diagnostic ∈ score.diagnostics, diagnostic.IsTextual := by
  obtain ⟨tokens, _, fromTokens⟩ := exists_tokens_of_read wasRead
  exact Score.isTextual_of_read fromTokens

theorem backed_of_read {score : Score} (wasRead : read settings source = .ok score) :
    score.Backed := by
  obtain ⟨tokens, _, fromTokens⟩ := exists_tokens_of_read wasRead
  obtain ⟨written, named⟩ := Score.exists_namedBy_of_read fromTokens
  exact named.backed

/-- A score that was read without problems fails to be finished in its expansion, or in
the check of instruments. -/
theorem finish_eq_error_cases {score : Score} {errors : List Diagnostic}
    (failed : finish settings score = .error errors) :
    (errors ≠ [] ∧ errors = (score.expand settings.maxExpansion).2) ∨
      (errors ≠ [] ∧ settings.checkInstruments = true ∧
        (score.expand settings.maxExpansion).2 = [] ∧
        errors = (score.expand settings.maxExpansion).1.playingProblems) := by
  unfold finish at failed
  dsimp only at failed
  split at failed
  · rename_i found
    have same := Except.error.inj failed
    subst same
    exact .inl ⟨by simpa using found, rfl⟩
  · rename_i silent
    split at failed
    · rename_i found
      have same := Except.error.inj failed
      subst same
      simp only [Bool.and_eq_true, Bool.not_eq_true', List.isEmpty_eq_false_iff] at found
      exact .inr ⟨found.2, found.1, by simpa using silent, rfl⟩
    · contradiction

/-- The problems are all those that one stage found, after every earlier stage found
none. -/
inductive Reports (settings : Settings) (source : String) : List Diagnostic → Prop where
  | tokens {diagnostic : Diagnostic} (failed : Token.tokenize source = .error diagnostic)
      (kind : diagnostic.kind = .lexical) : Reports settings source [diagnostic]
  | reading {score : Score} (wasRead : read settings source = .ok score)
      (found : score.diagnostics ≠ [])
      (kinds : ∀ diagnostic ∈ score.diagnostics,
        diagnostic.kind = .syntactic ∨ diagnostic.kind = .naming) :
      Reports settings source score.diagnostics
  | expansion {score : Score} (wasRead : read settings source = .ok score)
      (clean : score.diagnostics = []) (found : (score.expand settings.maxExpansion).2 ≠ [])
      (kinds : ∀ diagnostic ∈ (score.expand settings.maxExpansion).2,
        diagnostic.kind = .resolution) :
      Reports settings source (score.expand settings.maxExpansion).2
  | instruments {score : Score} (checked : settings.checkInstruments = true)
      (wasRead : read settings source = .ok score) (clean : score.diagnostics = [])
      (silent : (score.expand settings.maxExpansion).2 = [])
      (found : (score.expand settings.maxExpansion).1.playingProblems ≠ [])
      (kinds : ∀ diagnostic ∈ (score.expand settings.maxExpansion).1.playingProblems,
        diagnostic.kind = .instrument) :
      Reports settings source (score.expand settings.maxExpansion).1.playingProblems

theorem Reports.ne_nil {errors : List Diagnostic} (reports : Reports settings source errors) :
    errors ≠ [] := by
  cases reports with
  | tokens => exact List.cons_ne_nil _ _
  | reading _ found => exact found
  | expansion _ _ found => exact found
  | instruments _ _ _ _ found => exact found

theorem Reports.not_isInternal {errors : List Diagnostic}
    (reports : Reports settings source errors) :
    ∀ diagnostic ∈ errors, diagnostic.isInternal = false := by
  intro diagnostic member
  apply Diagnostic.isInternal_eq_false
  cases reports with
  | tokens _ kind => simp [List.mem_singleton.mp member, kind]
  | reading _ _ kinds => rcases kinds diagnostic member with kind | kind <;> simp [kind]
  | expansion _ _ _ kinds => simp [kinds diagnostic member]
  | instruments _ _ _ _ _ kinds => simp [kinds diagnostic member]

/-- A failed compilation reports what one stage found. -/
theorem reports_of_compile {errors : List Diagnostic}
    (failed : compile settings source = .error errors) : Reports settings source errors := by
  unfold compile at failed
  cases wasRead : read settings source with
  | error diagnostic =>
      rw [wasRead] at failed
      have tokens := tokenize_of_read wasRead
      rw [← Except.error.inj failed]
      exact .tokens tokens (Token.kind_of_tokenize tokens)
  | ok score =>
      rw [wasRead] at failed
      dsimp only at failed
      by_cases clean : score.diagnostics = []
      · have expansions := (backed_of_read wasRead).kind_of_mem_expand settings.maxExpansion
        rw [if_neg (by simp [Score.hasErrors, clean])] at failed
        rcases finish_eq_error_cases failed with
          ⟨found, rfl⟩ | ⟨found, checked, silent, rfl⟩
        · exact .expansion wasRead clean found expansions
        · exact .instruments checked wasRead clean silent found Score.kind_of_mem_playingProblems
      · rw [if_pos (by simp [Score.hasErrors, clean])] at failed
        rw [← Except.error.inj failed]
        exact .reading wasRead clean (isTextual_of_read wasRead)

/-- What one stage finds makes the compilation fail. -/
theorem compile_of_reports {errors : List Diagnostic}
    (reports : Reports settings source errors) :
    compile settings source = .error errors := by
  unfold compile
  cases reports with
  | tokens failed =>
      unfold read
      rw [failed]
  | reading wasRead found =>
      rw [wasRead]
      dsimp only
      rw [if_pos (by simp [Score.hasErrors, found])]
  | expansion wasRead clean found =>
      rw [wasRead]
      dsimp only
      rw [if_neg (by simp [Score.hasErrors, clean]), finish]
      dsimp only
      rw [if_pos (by simp [found])]
  | instruments checked wasRead clean silent found =>
      rw [wasRead]
      dsimp only
      rw [if_neg (by simp [Score.hasErrors, clean]), finish]
      dsimp only
      rw [if_neg (by simp [silent]), if_pos (by simp [checked, found])]

end Compiler

/-! ### The command line -/

namespace CommandLine

/-- Whichever stage is asked for, its problems are none of the compiler. -/
theorem not_isInternal_of_stageResult {stage : Stage} {settings : Settings} {source : String}
    {errors : List Diagnostic} (failed : stageResult stage settings source = .error errors) :
    ∀ diagnostic ∈ errors, diagnostic.isInternal = false := by
  have lexical {diagnostic : Diagnostic}
      (noTokens : Token.tokenize source = .error diagnostic) :
      ∀ other ∈ [diagnostic], other.isInternal = false := by
    have reports : Compiler.Reports settings source [diagnostic] :=
      .tokens noTokens (Token.kind_of_tokenize noTokens)
    exact reports.not_isInternal
  cases stage with
  | tokens =>
      unfold stageResult at failed
      dsimp only at failed
      split at failed
      · rename_i noTokens
        rw [← Except.error.inj failed]
        exact lexical noTokens
      · contradiction
  | read =>
      unfold stageResult at failed
      dsimp only at failed
      split at failed
      · rename_i notRead
        rw [← Except.error.inj failed]
        exact lexical (Compiler.tokenize_of_read notRead)
      · rename_i score wasRead
        split at failed
        · rw [← Except.error.inj failed]
          intro diagnostic member
          exact (Compiler.isTextual_of_read wasRead diagnostic member).not_isInternal
        · contradiction
  | expanded =>
      have notCompiled : Compiler.compile settings source = .error errors := by
        unfold stageResult at failed
        dsimp only at failed
        cases result : Compiler.compile settings source with
        | ok score =>
            rw [result] at failed
            contradiction
        | error found =>
            rw [result] at failed
            rw [← Except.error.inj failed]
      exact (Compiler.reports_of_compile notCompiled).not_isInternal

theorem status_of_diagnostics {problems : List Diagnostic}
    (blameless : ∀ diagnostic ∈ problems, diagnostic.isInternal = false) :
    (Failure.diagnostics problems).status = 1 := by
  have nowhere : problems.any Diagnostic.isInternal = false := by simpa using blameless
  unfold Failure.status
  simp [nowhere]

section Runs

variable {serialization : Serialization} {options : Options} {files : Files}

theorem exists_of_settingsOf {failure : Failure}
    (failed : settingsOf serialization options files = .error failure) :
    ∃ name fault, failure = .settings name fault := by
  unfold settingsOf at failed
  split at failed
  · rename_i name contents _ _
    cases loaded : loadSettings serialization contents with
    | error fault =>
        rw [loaded] at failed
        exact ⟨name, fault, (Except.error.inj failed).symm⟩
    | ok settings =>
        rw [loaded] at failed
        contradiction
  · exact ⟨_, _, (Except.error.inj failed).symm⟩
  · contradiction

/-- What a run fails for. -/
theorem failure_cases_of_result {failure : Failure}
    (failed : result serialization options files = .error failure) :
    (∃ name fault, failure = .settings name fault) ∨ (∃ name fault, failure = .source name fault) ∨
      (∃ problems, failure = .diagnostics problems ∧ failure.status = 1) ∨
      ∃ reason, failure = .rendering reason := by
  unfold result at failed
  split at failed
  · rename_i notLoaded
    rw [← Except.error.inj failed]
    exact .inl (exists_of_settingsOf notLoaded)
  · split at failed
    · rw [← Except.error.inj failed]
      exact .inr (.inl ⟨_, _, rfl⟩)
    · split at failed
      · rename_i problems stopped
        rw [← Except.error.inj failed]
        have status := status_of_diagnostics (not_isInternal_of_stageResult stopped)
        exact .inr (.inr (.inl ⟨problems, rfl, status⟩))
      · unfold rendered at failed
        split at failed
        · rename_i reason _
          rw [← Except.error.inj failed]
          exact .inr (.inr (.inr ⟨reason, rfl⟩))
        · contradiction

theorem status_run_of_diagnostics {problems : List Diagnostic}
    (failed : result serialization options files = .error (.diagnostics problems))
    (faults : Faults) : (run serialization options files faults).status = 1 := by
  unfold run
  rw [failed]
  rcases failure_cases_of_result failed with ⟨_, _, other⟩ | ⟨_, _, other⟩ | ⟨_, _, status⟩ |
    ⟨_, other⟩
  · contradiction
  · contradiction
  · exact status
  · contradiction

/-- The status that is for faults of the program is one of a result that cannot be written in
its format. -/
theorem status_run_eq_internal_iff (faults : Faults) :
    (run serialization options files faults).status = 70 ↔
      ∃ reason, result serialization options files = .error (.rendering reason) := by
  unfold run
  cases made : result serialization options files with
  | error failure =>
      change failure.status = 70 ↔ _
      rcases failure_cases_of_result made with ⟨_, _, rfl⟩ | ⟨_, _, rfl⟩ | ⟨_, rfl, status⟩ |
        ⟨_, rfl⟩
      · simp [Failure.status]
      · simp [Failure.status]
      · simp [status]
      · simp [Failure.status]
  | ok text =>
      change (finished options faults text).status = 70 ↔ _
      unfold finished
      split <;> split <;> simp [aborted, CommandLine.failed, Failure.status]

end Runs

end CommandLine

/-! ### Main result -/

/-- **One stage reports.** A compilation fails exactly with the problems that one stage
found, and that is at least one: a character that begins no token, problems of the syntax
and the names of the text, problems of its expansion, or, where instruments are checked,
problems of playing it. None of them is a fault of the program, so a run of the command line
that fails for such problems ends with the status for problems, whatever reads its settings and
writes its result: the status for faults of the program is one of a result that could not be
written in its format. -/
theorem compile_reports_one_stage :
    (∀ settings source errors,
      (Compiler.compile settings source = .error errors ↔
        Compiler.Reports settings source errors) ∧
      (Compiler.compile settings source = .error errors →
        errors ≠ [] ∧ ∀ diagnostic ∈ errors, diagnostic.isInternal = false)) ∧
      ∀ (serialization : CommandLine.Serialization) (options : CommandLine.Options)
        (files : CommandLine.Files) (faults : CommandLine.Faults),
        (∀ problems,
          CommandLine.result serialization options files = .error (.diagnostics problems) →
          (CommandLine.run serialization options files faults).status = 1) ∧
        ((CommandLine.run serialization options files faults).status = 70 ↔
          ∃ reason,
            CommandLine.result serialization options files = .error (.rendering reason)) := by
  constructor
  · intro settings source errors
    constructor
    · exact ⟨Compiler.reports_of_compile, Compiler.compile_of_reports⟩
    · intro failed
      have reports := Compiler.reports_of_compile failed
      exact ⟨reports.ne_nil, reports.not_isInternal⟩
  · intro serialization options files faults
    constructor
    · intro problems failed
      exact CommandLine.status_run_of_diagnostics failed faults
    · exact CommandLine.status_run_eq_internal_iff faults

/-- A macro that refers to itself, and a run of the command line on it. -/
theorem compile_reports_one_stage_circle :
    ∃ errors, Compiler.compile Settings.standard "m = m\npiano: m" = .error errors ∧
      Compiler.Reports Settings.standard "m = m\npiano: m" errors ∧ errors ≠ [] ∧
      (CommandLine.run .standard (.ofSource "score")
        ⟨.ok "m = m\npiano: m", none, .error .missing⟩ .absent).status = 1 := by
  cases failed : Compiler.compile Settings.standard "m = m\npiano: m" with
  | ok score =>
      have fails : (Compiler.compile Settings.standard "m = m\npiano: m").isOk = false := by
        decide +kernel
      rw [failed] at fails
      contradiction
  | error errors =>
      have one := compile_reports_one_stage
      have reports := one.1 Settings.standard "m = m\npiano: m" errors
      refine ⟨errors, rfl, reports.1.mp failed, (reports.2 failed).1, ?_⟩
      apply (one.2 _ _ _ _).1 errors
      have loaded : CommandLine.settingsOf .standard (.ofSource "score")
          ⟨.ok "m = m\npiano: m", none, .error .missing⟩ = .ok Settings.standard := rfl
      have stopped : CommandLine.stageResult .expanded Settings.standard "m = m\npiano: m" =
          .error errors := by
        unfold CommandLine.stageResult
        dsimp only
        rw [failed]
        rfl
      unfold CommandLine.result
      rw [loaded]
      dsimp only [CommandLine.Options.ofSource]
      rw [stopped]

end Solfege
