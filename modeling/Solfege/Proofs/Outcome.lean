import Solfege.Proofs.Stages

/-!
Contract: what a run of the command line leaves behind, whichever stage it prints.

Owns:
- the order of the stages, and the proof that a stage passes on the problems of those before it;
- the proof that a run of a later stage fails as a run of an earlier one does, unless that one
  fails at its own text;
- where the text of a run goes, that it is not empty, and that a run that fails leaves neither
  text nor file.

Does not own: which source text has which problem, or how files are read and written. Two runs
with different stages meet the same faults at different texts, which is why a fault at the output
is told apart from all others.
-/

namespace Solfege

namespace CommandLine

/-! ### Stages -/

/-- How many stages there are before a stage. -/
def Stage.place : Stage → Nat
  | .tokens => 0
  | .read => 1
  | .expanded => 2

/-- What is asked for, but with the result of another stage. -/
def Options.upTo (options : Options) (stage : Stage) : Options :=
  { options with stage := stage }

section Stages

variable {settings : Settings} {source : String} {problems : List Diagnostic}

/-- A source text without tokens cannot be read. -/
theorem read_of_tokens (failed : stageResult .tokens settings source = .error problems) :
    stageResult .read settings source = .error problems := by
  unfold stageResult Compiler.read at *
  cases tokenized : Token.tokenize source with
  | error diagnostic =>
      rw [tokenized] at failed
      exact failed
  | ok tokens =>
      rw [tokenized] at failed
      contradiction

/-- A source text that cannot be read without problems is not compiled. -/
theorem expanded_of_read (failed : stageResult .read settings source = .error problems) :
    stageResult .expanded settings source = .error problems := by
  unfold stageResult Compiler.compile at *
  cases wasRead : Compiler.read settings source with
  | error diagnostic =>
      rw [wasRead] at failed
      obtain rfl := Except.error.inj failed
      rfl
  | ok score =>
      rw [wasRead] at failed
      dsimp only at failed ⊢
      by_cases found : score.hasErrors = true
      · rw [if_pos found] at failed ⊢
        obtain rfl := Except.error.inj failed
        rfl
      · rw [if_neg found] at failed
        contradiction

/-- The problems of a stage are those of every later one. -/
theorem stageResult_of_earlier {earlier later : Stage} (order : earlier.place ≤ later.place)
    (failed : stageResult earlier settings source = .error problems) :
    stageResult later settings source = .error problems := by
  cases earlier with
  | tokens =>
      cases later with
      | tokens => exact failed
      | read => exact read_of_tokens failed
      | expanded => exact expanded_of_read (read_of_tokens failed)
  | read =>
      cases later with
      | tokens => contradiction
      | read => exact failed
      | expanded => exact expanded_of_read failed
  | expanded =>
      cases later with
      | expanded => exact failed
      | _ => contradiction

end Stages

/-! ### Runs -/

/-- The results of all stages can be written in a format, as they can where no value has a
conversion of its own that fails. -/
def Serialization.WritesResults (serialization : Serialization) (format : Format) : Prop :=
  ∀ stage settings source document, stageResult stage settings source = .ok document →
    ∃ text, serialization.write format document = .ok text

/-- Something keeps a text from where the output goes to. -/
def Faults.Block (faults : Faults) (output : Option String) : Prop :=
  match output with
  | none => faults.stdout ≠ none
  | some _ => faults.file ≠ none

section Runs

variable {serialization : Serialization} {options : Options} {files : Files} {faults : Faults}

/-- The settings, the source and its problems do not depend on what is printed of them. -/
theorem result_upTo (stage : Stage) :
    result serialization (options.upTo stage) files =
      match settingsOf serialization options files with
      | .error failure => .error failure
      | .ok settings =>
          match files.source with
          | .error fault => .error (.source options.source fault)
          | .ok source =>
              match stageResult stage settings source with
              | .error problems => .error (.diagnostics problems)
              | .ok document => rendered serialization options.format document :=
  rfl

/-- Where a stage comes to nothing, every later one does for the same reason, if the reason is
not that what the stage came to cannot be written. -/
theorem result_of_earlier {earlier later : Stage} (order : earlier.place ≤ later.place)
    {failure : Failure}
    (failed : result serialization (options.upTo earlier) files = .error failure)
    (otherwise : ∀ reason, failure ≠ .rendering reason) :
    result serialization (options.upTo later) files = .error failure := by
  rw [result_upTo] at failed ⊢
  cases loaded : settingsOf serialization options files with
  | error fault =>
      rw [loaded] at failed
      exact failed
  | ok settings =>
      rw [loaded] at failed
      cases held : files.source with
      | error fault =>
          rw [held] at failed
          exact failed
      | ok source =>
          rw [held] at failed
          dsimp only at failed ⊢
          cases stopped : stageResult earlier settings source with
          | error problems =>
              rw [stopped] at failed
              rw [stageResult_of_earlier order stopped]
              exact failed
          | ok document =>
              rw [stopped] at failed
              unfold rendered at failed
              dsimp only at failed
              split at failed
              · exact absurd (Except.error.inj failed).symm (otherwise _)
              · contradiction

/-- Where all results can be written, no run fails for a result that cannot. -/
theorem ne_rendering_of_result (writes : serialization.WritesResults options.format)
    {stage : Stage} {failure : Failure}
    (failed : result serialization (options.upTo stage) files = .error failure)
    (reason : String) : failure ≠ .rendering reason := by
  rw [result_upTo] at failed
  split at failed
  · rename_i notLoaded
    obtain ⟨name, fault, rfl⟩ := exists_of_settingsOf notLoaded
    rw [← Except.error.inj failed]
    exact Failure.noConfusion
  · split at failed
    · rw [← Except.error.inj failed]
      exact Failure.noConfusion
    · split at failed
      · rw [← Except.error.inj failed]
        exact Failure.noConfusion
      · rename_i document shown
        obtain ⟨text, written⟩ := writes _ _ _ _ shown
        unfold rendered at failed
        rw [written] at failed
        contradiction

theorem terminated_ne_empty (text : String) : terminated text ≠ "" := by
  unfold terminated
  split
  · rename_i ends
    rintro rfl
    contradiction
  · exact String.push_ne_empty

theorem ne_empty_of_result {text : String}
    (made : result serialization options files = .ok text) : text ≠ "" := by
  unfold result at made
  split at made
  · contradiction
  · split at made
    · contradiction
    · split at made
      · contradiction
      · unfold rendered at made
        split at made
        · contradiction
        · rw [← Except.ok.inj made]
          exact terminated_ne_empty _

theorem status_failed_ne_zero (failure : Failure) : (failed failure).status ≠ 0 := by
  cases failure with
  | diagnostics problems =>
      change (if problems.any Diagnostic.isInternal then 70 else 1) ≠ 0
      split <;> decide
  | rendering reason => exact Nat.succ_ne_zero 69
  | _ => exact Nat.succ_ne_zero 1

theorem run_of_error {failure : Failure}
    (stopped : result serialization options files = .error failure) (faults : Faults) :
    run serialization options files faults = failed failure := by
  unfold run
  rw [stopped]

theorem run_of_ok {text : String} (made : result serialization options files = .ok text)
    (faults : Faults) :
    run serialization options files faults = finished options faults text := by
  unfold run
  rw [made]

theorem status_finished_eq_zero_iff (text : String) :
    (finished options faults text).status = 0 ↔ ¬ faults.Block options.output := by
  unfold finished Faults.Block
  cases options.output with
  | none => cases faults.stdout <;> simp [aborted]
  | some name => cases faults.file <;> simp [status_failed_ne_zero]

/-- A run succeeds if it has a result, and nothing keeps it from where it goes to. -/
theorem status_run_eq_zero_iff :
    (run serialization options files faults).status = 0 ↔
      (∃ text, result serialization options files = .ok text) ∧
        ¬ faults.Block options.output := by
  cases made : result serialization options files with
  | error failure =>
      rw [run_of_error made]
      simp [status_failed_ne_zero]
  | ok text =>
      rw [run_of_ok made, status_finished_eq_zero_iff]
      simp

end Runs

/-! ### The file of the output -/

/-- What the file of the output holds after a run that found it holding something, or found
no such file. -/
def Outcome.fileAfter (outcome : Outcome) (before : Option String) : Option String :=
  outcome.file.or before

/-- The text is printed or it is written, but not both. -/
def Outcome.Delivers (outcome : Outcome) (output : Option String) (before : Option String)
    (text : String) : Prop :=
  (output = none ∧ outcome.stdout = text ∧ outcome.fileAfter before = before) ∨
    (output.isSome ∧ outcome.stdout = "" ∧ outcome.fileAfter before = some text)

/-- Nothing is printed, unless standard output failed: then it holds what it took of the text
before. -/
def Outcome.IsQuiet (outcome : Outcome) (faults : Faults) (text : Except Failure String) : Prop :=
  outcome.stdout = "" ∨
    ∃ fault whole, faults.stdout = some fault ∧ text = .ok whole ∧ outcome.status = 101 ∧
      outcome.stdout = String.ofList (whole.toList.take fault.taken)

section Output

variable {serialization : Serialization} {options : Options} {files : Files} {faults : Faults}

theorem delivers_of_status (succeeded : (run serialization options files faults).status = 0)
    (before : Option String) :
    ∃ text, result serialization options files = .ok text ∧
      (run serialization options files faults).Delivers options.output before text := by
  obtain ⟨⟨text, made⟩, unblocked⟩ := status_run_eq_zero_iff.mp succeeded
  refine ⟨text, made, ?_⟩
  rw [run_of_ok made]
  unfold finished Outcome.Delivers
  unfold Faults.Block at unblocked
  cases goes : options.output with
  | none =>
      rw [goes] at unblocked
      rw [Classical.not_not.mp unblocked]
      exact .inl ⟨rfl, rfl, rfl⟩
  | some name =>
      rw [goes] at unblocked
      rw [Classical.not_not.mp unblocked]
      exact .inr ⟨rfl, rfl, rfl⟩

/-- A run that fails writes nothing, and prints at most what standard output took before it
failed. -/
theorem nothing_of_status (unsuccessful : (run serialization options files faults).status ≠ 0) :
    (run serialization options files faults).file = none ∧
      (run serialization options files faults).IsQuiet faults
        (result serialization options files) := by
  cases made : result serialization options files with
  | error failure =>
      rw [run_of_error made]
      exact ⟨rfl, .inl rfl⟩
  | ok text =>
      rw [run_of_ok made] at unsuccessful ⊢
      unfold finished at *
      split at unsuccessful
      · split at unsuccessful
        · contradiction
        · rename_i fault found
          exact ⟨rfl, .inr ⟨fault, text, found, rfl, rfl, rfl⟩⟩
      · split at unsuccessful
        · contradiction
        · exact ⟨rfl, .inl rfl⟩

end Output

/-! ### Main result -/

/-- **Stages agree, and failures leave nothing.** Take two runs that differ in the stage whose
result is asked for, and let the results of stages be writable in the format. If the run of the
later stage succeeds, so does that of the earlier one. And if the earlier one fails, the later
one leaves exactly the same behind, status and diagnostics included, unless the earlier one came
to a text, which was kept from where it goes to. Whether results are writable or not, a stage that
comes to nothing, be it for the settings, the source, its characters or its syntax, has every
later one do so for the same reason, which is what both print. Further, a run with status zero
prints its text, which is not empty, or writes it to the file of its output, but not both; and a
run with any other status leaves the file as it was and prints nothing to its standard output,
unless that failed in the middle of the text. -/
theorem run_stages_agree (serialization : Serialization) (options : Options) (files : Files)
    (faults : Faults) :
    (∀ earlier later : Stage, earlier.place ≤ later.place →
      (serialization.WritesResults options.format →
        ((run serialization (options.upTo later) files faults).status = 0 →
          (run serialization (options.upTo earlier) files faults).status = 0) ∧
        ((run serialization (options.upTo earlier) files faults).status ≠ 0 →
          run serialization (options.upTo later) files faults =
              run serialization (options.upTo earlier) files faults ∨
            faults.Block options.output ∧
              ∃ text, result serialization (options.upTo earlier) files = .ok text)) ∧
      ∀ failure, result serialization (options.upTo earlier) files = .error failure →
        (∀ reason, failure ≠ .rendering reason) →
        result serialization (options.upTo later) files = .error failure ∧
        (run serialization (options.upTo earlier) files faults).status = failure.status ∧
        failure.status ≠ 0 ∧
        run serialization (options.upTo later) files faults =
          run serialization (options.upTo earlier) files faults) ∧
      ∀ before : Option String,
        ((run serialization options files faults).status = 0 →
          ∃ text, result serialization options files = .ok text ∧ text ≠ "" ∧
            (run serialization options files faults).Delivers options.output before text) ∧
        ((run serialization options files faults).status ≠ 0 →
          (run serialization options files faults).fileAfter before = before ∧
            (run serialization options files faults).IsQuiet faults
              (result serialization options files)) := by
  refine ⟨fun earlier later order => ⟨fun writes => ⟨fun succeeded => ?_, fun unsuccessful => ?_⟩,
    fun failure stopped otherwise => ?_⟩, fun before => ⟨fun succeeded => ?_, fun unsuccessful => ?_⟩⟩
  · obtain ⟨⟨text, made⟩, unblocked⟩ := status_run_eq_zero_iff.mp succeeded
    refine status_run_eq_zero_iff.mpr ⟨?_, unblocked⟩
    cases before : result serialization (options.upTo earlier) files with
    | ok text => exact ⟨text, rfl⟩
    | error failure =>
        have otherwise := ne_rendering_of_result writes before
        rw [result_of_earlier order before otherwise] at made
        contradiction
  · cases before : result serialization (options.upTo earlier) files with
    | ok text =>
        refine .inr ⟨?_, text, rfl⟩
        by_contra unblocked
        exact unsuccessful (status_run_eq_zero_iff.mpr ⟨⟨text, before⟩, unblocked⟩)
    | error failure =>
        have otherwise := ne_rendering_of_result writes before
        rw [run_of_error before, run_of_error (result_of_earlier order before otherwise)]
        exact .inl rfl
  · have alsoStopped := result_of_earlier order stopped otherwise
    rw [run_of_error stopped, run_of_error alsoStopped]
    exact ⟨alsoStopped, rfl, status_failed_ne_zero failure, rfl⟩
  · obtain ⟨text, made, delivers⟩ := delivers_of_status succeeded before
    exact ⟨text, made, ne_empty_of_result made, delivers⟩
  · obtain ⟨unwritten, quiet⟩ := nothing_of_status unsuccessful
    refine ⟨?_, quiet⟩
    unfold Outcome.fileAfter
    rw [unwritten]
    rfl

/-! ### Two scores -/

/-- The options that ask for the text of a score to be written to a file. -/
def writingOptions : Options :=
  { Options.ofSource "score" with output := some "text" }

/-- The files of a run on a score with a note. -/
def noteFiles : Files :=
  ⟨.ok "piano: do", none, .error .missing⟩

/-- The files of a run on a score with a release that nothing is in front of. -/
def releaseFiles : Files :=
  ⟨.ok "piano: )", none, .error .missing⟩

/-- No text gets to its file, and none gets further than its first character. -/
def blockedOutput : Faults :=
  ⟨some .missing, some ⟨1, "Broken pipe (os error 32)"⟩⟩

theorem Serialization.standard_writesResults (format : Format) :
    Serialization.standard.WritesResults format := by
  intro stage settings source document shown
  cases format with
  | yaml => exact ⟨_, rfl⟩
  | json => exact ⟨_, rfl⟩

/-- The note can be expanded, and so it can be read. The tokens of the release are written over
what the file held, and neither the release as it is read nor the expanded one is. -/
theorem run_stages_agree_release :
    (run .standard (writingOptions.upTo .read) noteFiles .absent).status = 0 ∧
      (∃ text, text ≠ "" ∧
        (run .standard (writingOptions.upTo .tokens) releaseFiles .absent).Delivers (some "text")
          (some "earlier") text) ∧
      ∃ failure,
        result .standard (writingOptions.upTo .read) releaseFiles = .error failure ∧
        (run .standard (writingOptions.upTo .read) releaseFiles .absent).status =
          failure.status ∧
        failure.status ≠ 0 ∧
        run .standard (writingOptions.upTo .expanded) releaseFiles .absent =
          run .standard (writingOptions.upTo .read) releaseFiles .absent ∧
        (run .standard (writingOptions.upTo .read) releaseFiles .absent).stdout = "" ∧
        (run .standard (writingOptions.upTo .read) releaseFiles .absent).fileAfter
          (some "earlier") = some "earlier" := by
  have later : Stage.read.place ≤ Stage.expanded.place := by decide
  have writes := Serialization.standard_writesResults .yaml
  refine ⟨?_, ?_, ?_⟩
  · have expanded :
        (run .standard (writingOptions.upTo .expanded) noteFiles .absent).status = 0 := by
      decide +kernel
    have agree := (run_stages_agree .standard writingOptions noteFiles .absent).1
    exact ((agree .read .expanded later).1 writes).1 expanded
  · have succeeds :
        (run .standard (writingOptions.upTo .tokens) releaseFiles .absent).status = 0 := by
      decide +kernel
    have left := (run_stages_agree .standard (writingOptions.upTo .tokens) releaseFiles .absent).2
      (some "earlier")
    obtain ⟨text, _, isText, delivers⟩ := left.1 succeeds
    exact ⟨text, isText, delivers⟩
  · have fails : (result .standard (writingOptions.upTo .read) releaseFiles).isOk = false := by
      decide +kernel
    cases stopped : result .standard (writingOptions.upTo .read) releaseFiles with
    | ok text =>
        rw [stopped] at fails
        contradiction
    | error failure =>
        have otherwise := ne_rendering_of_result writes stopped
        have agree := (run_stages_agree .standard writingOptions releaseFiles .absent).1
        obtain ⟨_, status, unsuccessful, alike⟩ :=
          (agree .read .expanded later).2 failure stopped otherwise
        have left := (run_stages_agree .standard (writingOptions.upTo .read) releaseFiles .absent).2
          (some "earlier")
        obtain ⟨unchanged, quiet | ⟨fault, _, found, _⟩⟩ := left.2 (status ▸ unsuccessful)
        · exact ⟨failure, rfl, status, unsuccessful, alike, quiet, unchanged⟩
        · contradiction

/-- Where its tokens cannot be written, the release fails for the file as tokens, and for its
syntax as it is read. And where they cannot be printed as a whole, some of them are printed. -/
theorem not_run_of_blocked_tokens :
    (¬ ∀ earlier later : Stage, earlier.place ≤ later.place →
      (run .standard (writingOptions.upTo earlier) releaseFiles blockedOutput).status ≠ 0 →
      (run .standard (writingOptions.upTo later) releaseFiles blockedOutput).status =
        (run .standard (writingOptions.upTo earlier) releaseFiles blockedOutput).status) ∧
      ¬ ((run .standard ((Options.ofSource "score").upTo .tokens) releaseFiles
          blockedOutput).status ≠ 0 →
        (run .standard ((Options.ofSource "score").upTo .tokens) releaseFiles
          blockedOutput).stdout = "") := by
  constructor
  · intro agree
    have alike := agree .tokens .read (by decide) (by decide +kernel)
    revert alike
    decide +kernel
  · decide +kernel

end CommandLine

end Solfege
