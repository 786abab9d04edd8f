import Solfege.Proofs.Inlining.Invariant
import Solfege.Proofs.Inlining.Levels
import Solfege.Proofs.Inlining.Turn
import Solfege.Proofs.Names.Score
import Solfege.Proofs.Provenance.Score

/-!
Contract: expanding a score whose names have their macros finds problems of the score, and
none of the compiler.

Owns:
- the problems of each pass, which are all problems of expansion;
- the proof that inlining finds every macro that a name stands for, and that there are
  enough levels for all macros inside each other;
- the passes in any order and number, on a score that was read.

Does not own: whether a pass has problems.
-/

namespace Solfege

/-- The problem is one that the expansion of a score may have. -/
def Diagnostic.IsExpansion (diagnostic : Diagnostic) : Prop :=
  ∃ problem, diagnostic.problem = .ofExpansion problem

theorem isExpansion_expansionAt (token : Token) (problem : ExpansionProblem) :
    (Diagnostic.expansionAt token problem).IsExpansion :=
  ⟨problem, rfl⟩

theorem Diagnostic.IsExpansion.not_ofCompiler {diagnostic : Diagnostic}
    (isExpansion : diagnostic.IsExpansion) (problem : InternalProblem) :
    diagnostic.problem ≠ .ofCompiler problem := by
  obtain ⟨cause, same⟩ := isExpansion
  rw [same]
  exact Problem.noConfusion

namespace Expression

/-! ### Repetitions -/

theorem isExpansion_repeatLatest (limit count : Nat) (token : Token) {state : Unrolling}
    (known : ∀ diagnostic ∈ state.problems, diagnostic.IsExpansion) :
    ∀ diagnostic ∈ (state.repeatLatest limit count token).problems,
      diagnostic.IsExpansion := by
  have failing : ∀ problem, ∀ diagnostic ∈ (state.fail token problem).problems,
      diagnostic.IsExpansion := fun problem =>
    List.forall_mem_append.mpr
      ⟨known, List.forall_mem_singleton.mpr (isExpansion_expansionAt token problem)⟩
  unfold Unrolling.repeatLatest
  split
  · exact failing _
  · dsimp only
    split
    · exact failing _
    · exact known

mutual

theorem isExpansion_unrollWithin (limit : Nat) (expression : Expression) :
    ∀ diagnostic ∈ (unrollWithin limit expression).2, diagnostic.IsExpansion := by
  cases expression with
  | group items token => exact isExpansion_unrollOnto limit (List.forall_mem_nil _) items
  | call name arguments token => exact isExpansion_unrollArguments limit arguments
  | hold inner token => exact isExpansion_unrollWithin limit inner
  | _ => exact List.forall_mem_nil _

theorem isExpansion_unrollArguments (limit : Nat) (arguments : List Expression) :
    ∀ diagnostic ∈ (unrollArguments limit arguments).2, diagnostic.IsExpansion := by
  cases arguments with
  | nil => exact List.forall_mem_nil _
  | cons argument rest =>
      exact List.forall_mem_append.mpr
        ⟨isExpansion_unrollWithin limit argument, isExpansion_unrollArguments limit rest⟩

theorem isExpansion_unrollOnto (limit : Nat) {state : Unrolling}
    (known : ∀ diagnostic ∈ state.problems, diagnostic.IsExpansion) (list : List Expression) :
    ∀ diagnostic ∈ (unrollOnto limit state list).problems, diagnostic.IsExpansion := by
  cases list with
  | nil => exact known
  | cons element rest =>
      rcases repetition_or_plain element with ⟨count, token, rfl⟩ | plain
      · exact isExpansion_unrollOnto limit (isExpansion_repeatLatest limit count token known) rest
      · rw [unrollOnto_cons_of_plain plain]
        refine isExpansion_unrollOnto limit ?_ rest
        exact List.forall_mem_append.mpr ⟨known, isExpansion_unrollWithin limit element⟩

end

/-! ### Chords in the body of a macro -/

/-- A member of a chord has one sort of problem only. -/
theorem memberProblem?_cases {bindings : Bindings} {member : ChordMember}
    {diagnostic : Diagnostic} (found : memberProblem? bindings member = some diagnostic) :
    ∃ token name, diagnostic = Diagnostic.expansionAt token (.argumentInChord name) := by
  cases member with
  | note written => contradiction
  | reference name token =>
      unfold memberProblem? at found
      dsimp only at found
      split at found
      · contradiction
      · contradiction
      · contradiction
      · exact ⟨token, name, (Option.some.inj found).symm⟩

section Chords

variable {holds : Diagnostic → Prop}

mutual

theorem forall_mem_chordProblemsOnto {bindings : Bindings} {found : List Diagnostic}
    (each : ∀ token name, holds (Diagnostic.expansionAt token (.argumentInChord name)))
    (known : ∀ diagnostic ∈ found, holds diagnostic) (expression : Expression) :
    ∀ diagnostic ∈ chordProblemsOnto bindings found expression, holds diagnostic := by
  cases expression with
  | call name arguments token => exact forall_mem_chordProblemsAllOnto each known arguments
  | group items token => exact forall_mem_chordProblemsAllOnto each known items
  | hold inner token => exact forall_mem_chordProblemsOnto each known inner
  | chord members token =>
      refine List.forall_mem_append.mpr ⟨fun diagnostic reversed => ?_, known⟩
      obtain ⟨member, _, isProblem⟩ := List.mem_filterMap.mp (List.mem_reverse.mp reversed)
      obtain ⟨place, name, rfl⟩ := memberProblem?_cases isProblem
      exact each place name
  | _ => exact known

theorem forall_mem_chordProblemsAllOnto {bindings : Bindings} {found : List Diagnostic}
    (each : ∀ token name, holds (Diagnostic.expansionAt token (.argumentInChord name)))
    (known : ∀ diagnostic ∈ found, holds diagnostic) (list : List Expression) :
    ∀ diagnostic ∈ chordProblemsAllOnto bindings found list, holds diagnostic := by
  cases list with
  | nil => exact known
  | cons item rest =>
      exact forall_mem_chordProblemsAllOnto each (forall_mem_chordProblemsOnto each known item)
        rest

end

/-- What holds of the one sort of problem that chords in a body have holds of them all. -/
theorem forall_mem_chordProblems
    (each : ∀ token name, holds (Diagnostic.expansionAt token (.argumentInChord name)))
    (bindings : Bindings) (list : List Expression) :
    ∀ diagnostic ∈ chordProblems bindings list, holds diagnostic := by
  intro diagnostic reversed
  exact forall_mem_chordProblemsAllOnto each (List.forall_mem_nil _) list diagnostic
    (List.mem_reverse.mp reversed)

end Chords

theorem isExpansion_chordProblems (bindings : Bindings) (list : List Expression) :
    ∀ diagnostic ∈ chordProblems bindings list, diagnostic.IsExpansion :=
  forall_mem_chordProblems (fun token _ => isExpansion_expansionAt token _) bindings list

end Expression

/-! ### Macros -/

theorem Score.exists_macroAt? {macros : List Macro} {index : Nat} (positive : 0 < index)
    (inRange : index ≤ macros.length) :
    ∃ definition, Score.macroAt? macros index = some definition := by
  cases index with
  | zero => contradiction
  | succ place => exact ⟨macros[place], List.getElem?_eq_getElem inRange⟩

/-- Every macro that a name stands for is there. -/
def Surroundings.Backed (around : Surroundings) : Prop :=
  ∀ name index, around.names.get? name = some (.macroAt index) →
    0 < index ∧ index ≤ around.macros.length

namespace Inlining

theorem isExpansion_macroNamed {around : Surroundings} (backed : around.Backed)
    {name : String} {token : Token} {diagnostic : Diagnostic}
    (refused : macroNamed around name token = .error diagnostic) : diagnostic.IsExpansion := by
  unfold macroNamed at refused
  cases found : around.names.get? name with
  | none =>
      rw [found] at refused
      rw [← Except.error.inj refused]
      exact isExpansion_expansionAt token _
  | some entry =>
      rw [found] at refused
      cases entry with
      | movementAt track movement =>
          rw [← Except.error.inj refused]
          exact isExpansion_expansionAt token _
      | macroAt index =>
          obtain ⟨positive, inRange⟩ := backed name index found
          obtain ⟨definition, isThere⟩ := Score.exists_macroAt? positive inRange
          dsimp only at refused
          rw [isThere] at refused
          contradiction

theorem isExpansion_callee {around : Surroundings} (backed : around.Backed)
    {active : List String} {name : String} {given : Nat} {token : Token}
    {diagnostic : Diagnostic} (refused : callee around active name given token =
      .error diagnostic) : diagnostic.IsExpansion := by
  unfold callee at refused
  cases named : macroNamed around name token with
  | error cause =>
      rw [named] at refused
      rw [← Except.error.inj refused]
      exact isExpansion_macroNamed backed named
  | ok definition =>
      rw [named] at refused
      dsimp only at refused
      split at refused
      · rw [← Except.error.inj refused]
        exact isExpansion_expansionAt token _
      · split at refused
        · rw [← Except.error.inj refused]
          exact isExpansion_expansionAt token _
        · contradiction

/-- The state of an inlining that found no fault in the compiler, and that has a level left
for each macro that is not being inlined. -/
structure Blameless (around : Surroundings) (level : Nat) (state : Inlining) : Prop where
  problems : ∀ diagnostic ∈ state.problems, diagnostic.IsExpansion
  distinct : state.active.Nodup
  known : ∀ name ∈ state.active, name ∈ around.macros.map Macro.name
  room : around.macros.length ≤ level + state.active.length

/-- Whatever name is met, states stay blameless. -/
theorem blameless_invariant {around : Surroundings} (backed : around.Backed) (level : Nat) :
    Invariant around (fun _ _ => True) Diagnostic.IsExpansion (Blameless around level) where
  fail _ _ blameless isExpansion :=
    { blameless with problems := forall_mem_problems_fail blameless.problems isExpansion }
  emitting _ _ blameless := { blameless with }
  spending _ _ _ blameless := { blameless with }
  fine_expansion token problem _ := isExpansion_expansionAt token problem
  fine_callee _ _ _ _ _ _ refused := isExpansion_callee backed refused

section Levels

variable {around : Surroundings} {level : Nat} {state : Inlining}

theorem Blameless.stacked (blameless : Blameless around level state) :
    Stacked around state.active :=
  ⟨blameless.distinct, fun name running => List.mem_map.mp (blameless.known name running)⟩

/-- Distinct macros that are being inlined leave a level for one that is not. -/
theorem Blameless.exists_level (blameless : Blameless around level state) {definition : Macro}
    (member : definition ∈ around.macros) (fresh : definition.name ∉ state.active) :
    ∃ below, level = below + 1 ∧
      Blameless around below { state with active := definition.name :: state.active } := by
  have pushed := blameless.stacked.push member fresh
  have few := Nat.lt_of_lt_of_le (blameless.stacked.length_lt member fresh)
    around.length_macroNames_le
  have room := blameless.room
  refine ⟨level - 1, by omega, blameless.problems, pushed.distinct,
    fun name running => List.mem_map.mpr (pushed.known name running), ?_⟩
  change _ ≤ level - 1 + (state.active.length + 1)
  omega

/-- A macro is entered one level below, and left again. -/
theorem Blameless.enter (backed : around.Backed)
    (keeping : UnfoldsKeeping around (fun _ _ => True) (Blameless around level)
      (unfoldTo around level))
    (blameless : Blameless around (level + 1) state) {definition : Macro}
    (member : definition ∈ around.macros) (fresh : definition.name ∉ state.active)
    (body : List Expression) {inside : Inlining}
    (same : placeAll around (unfoldTo around level) body
      { state with active := definition.name :: state.active } = inside) :
    Blameless around (level + 1) { inside with active := inside.active.tail } := by
  obtain ⟨below, isBelow, entered⟩ := blameless.exists_level member fresh
  obtain rfl := Nat.succ.inj isBelow
  have unfolds := unfoldTo_course around level
  have placed := (blameless_invariant backed level).placeAll unfolds keeping body entered
    fun _ _ => trivial
  have still := (placeAll_course unfolds body
    { state with active := definition.name :: state.active }).active_eq
  rw [same] at placed still
  have outside : inside.active.tail = state.active := congrArg List.tail still
  rw [outside]
  exact ⟨placed.problems, blameless.distinct, blameless.known, blameless.room⟩

/-- Inlining a macro keeps states blameless: where there is no level left, there is no macro
left either that is not being inlined. -/
theorem unfoldTo_keeps_blameless (backed : around.Backed) (level : Nat) :
    UnfoldsKeeping around (fun _ _ => True) (Blameless around level)
      (unfoldTo around level) := by
  induction level with
  | zero =>
      -- Without a level left every macro is being inlined, so none can be entered.
      intro name token definition arguments state _ accepted _ blameless
      obtain ⟨found, fresh, _⟩ := callee_eq_ok_iff.mp accepted
      obtain ⟨below, impossible, _⟩ :=
        blameless.exists_level (Surroundings.mem_of_macro? found) fresh
      contradiction
  | succ level inductionHypothesis =>
      intro name token definition arguments state _ accepted _ blameless
      obtain ⟨found, fresh, _⟩ := callee_eq_ok_iff.mp accepted
      have warned := (blameless_invariant backed (level + 1)).fails blameless
        (Expression.isExpansion_chordProblems (definition.parameters.zip arguments)
          definition.body)
      have still := (fails_course around (Expression.chordProblems
        (definition.parameters.zip arguments) definition.body) state).active_eq
      exact warned.enter backed inductionHypothesis (Surroundings.mem_of_macro? found)
        (still ▸ fresh) _ rfl

end Levels

theorem isExpansion_ofList {around : Surroundings} (backed : around.Backed)
    (list : List Expression) :
    ∀ diagnostic ∈ (ofList around list).problems, diagnostic.IsExpansion := by
  have begun : Blameless around around.macros.length start :=
    ⟨List.forall_mem_nil _, List.nodup_nil, List.forall_mem_nil _, Nat.le_add_right _ _⟩
  exact ((blameless_invariant backed _).placeAll (unfoldTo_course around _)
    (unfoldTo_keeps_blameless backed _) list begun fun _ _ => trivial).problems

end Inlining

/-! ### Changes one by one -/

theorem forall_mem_changeAll {α : Type} {change : α → α × List Diagnostic} {things : List α}
    {holds : Diagnostic → Prop}
    (each : ∀ thing ∈ things, ∀ diagnostic ∈ (change thing).2, holds diagnostic) :
    ∀ diagnostic ∈ (changeAll change things).2, holds diagnostic := by
  intro diagnostic member
  obtain ⟨changed, changedMember, found⟩ := List.mem_flatMap.mp member
  obtain ⟨thing, thingMember, rfl⟩ := List.mem_map.mp changedMember
  exact each thing thingMember diagnostic found

namespace Score

/-- Every macro that a name stands for is stored. -/
def Backed (score : Score) : Prop :=
  ∀ name index, score.names.get? name = some (.macroAt index) →
    0 < index ∧ index ≤ score.macros.length

theorem NamedBy.backed {score : Score} {written : List Stored} (named : score.NamedBy written) :
    score.Backed := by
  intro name index found
  obtain ⟨positive, definition, isThere, _⟩ := named.defines found
  obtain ⟨inRange, _⟩ := List.getElem?_eq_some_iff.mp isThere
  omega

/-! ### Passes -/

theorem isExpansion_unroll (limit : Nat) (score : Score) :
    ∀ diagnostic ∈ (score.unroll limit).2, diagnostic.IsExpansion := by
  have unrolled : ∀ list, ∀ diagnostic ∈ (Expression.unroll limit list).2,
      diagnostic.IsExpansion :=
    fun list => Expression.isExpansion_unrollOnto limit (List.forall_mem_nil _) list
  refine List.forall_mem_append.mpr ⟨?_, ?_⟩
  · exact forall_mem_changeAll fun definition _ => unrolled definition.body
  · exact forall_mem_changeAll fun track _ =>
      forall_mem_changeAll fun movement _ => unrolled movement.expressions

/-- What holds of the problems of every movement holds of those of the score. -/
theorem forall_mem_inlineMacros {score : Score} {limit : Nat} {holds : Diagnostic → Prop}
    (each : ∀ movement ∈ score.movements,
      ∀ diagnostic ∈ (movement.inlineMacros score limit).2, holds diagnostic) :
    ∀ diagnostic ∈ (score.inlineMacros limit).2, holds diagnostic := by
  have inTracks : ∀ diagnostic ∈ (changeAll (Track.inlineMacros score limit) score.tracks).2,
      holds diagnostic :=
    forall_mem_changeAll fun track trackMember =>
      forall_mem_changeAll fun movement member =>
        each movement (List.mem_flatMap.mpr ⟨track, trackMember, member⟩)
  rw [inlineMacros_eq]
  intro diagnostic member
  exact inTracks diagnostic (List.mem_eraseDups.mp member)

theorem Backed.isExpansion_inlineMacros {score : Score} (backed : score.Backed) (limit : Nat) :
    ∀ diagnostic ∈ (score.inlineMacros limit).2, diagnostic.IsExpansion := by
  apply forall_mem_inlineMacros
  intro movement _
  have backedHere : (score.around limit movement).Backed := backed
  exact Inlining.isExpansion_ofList backedHere movement.expressions

/-- One of the passes that expand a score, under its limit. -/
inductive Pass where
  | repetitions (limit : Nat)
  | groups
  | macros (limit : Nat)

/-- Runs a pass, whatever problems were found before it. -/
def after (score : Score) : Pass → Score × List Diagnostic
  | .repetitions limit => score.unroll limit
  | .groups => (score.flatten, [])
  | .macros limit => score.inlineMacros limit

/-- Runs one pass after another, and lists the problems of all. -/
def afterAll (score : Score) : List Pass → Score × List Diagnostic
  | [] => (score, [])
  | pass :: others =>
      let (changed, problems) := score.after pass
      let (last, more) := changed.afterAll others
      (last, problems ++ more)

theorem names_after (score : Score) (pass : Pass) : (score.after pass).1.names = score.names := by
  cases pass <;> rfl

theorem length_macros_after (score : Score) (pass : Pass) :
    (score.after pass).1.macros.length = score.macros.length := by
  cases pass with
  | repetitions limit =>
      change (score.unroll limit).1.macros.length = _
      rw [unroll_macros, List.length_map]
  | groups => exact List.length_map _
  | macros limit => rfl

theorem Backed.after {score : Score} (backed : score.Backed) (pass : Pass) :
    (score.after pass).1.Backed := by
  intro name index found
  rw [names_after] at found
  rw [length_macros_after]
  exact backed name index found

theorem Backed.isExpansion_after {score : Score} (backed : score.Backed) (pass : Pass) :
    ∀ diagnostic ∈ (score.after pass).2, diagnostic.IsExpansion := by
  cases pass with
  | repetitions limit => exact isExpansion_unroll limit score
  | groups => exact List.forall_mem_nil _
  | macros limit => exact backed.isExpansion_inlineMacros limit

theorem Backed.isExpansion_afterAll {score : Score} (backed : score.Backed)
    (passes : List Pass) :
    ∀ diagnostic ∈ (score.afterAll passes).2, diagnostic.IsExpansion := by
  induction passes generalizing score with
  | nil => exact List.forall_mem_nil _
  | cons pass others inductionHypothesis =>
      exact List.forall_mem_append.mpr
        ⟨backed.isExpansion_after pass, inductionHypothesis (backed.after pass)⟩

/-- **The names of a score that was read.** Every list of tokens is read to a score that holds
the definitions of all statements that are not refused, and whose names are those of its
definitions as they were written, where the first of a name keeps it.
Each entry points at a definition of its name, and no pass that is run on the score, after
whichever others, misses a macro. -/
theorem ofTokens_names (tokens : List Token) (trackName : String) :
    ∃ score written, ofTokens tokens trackName = .ok score ∧
      Stored.Written written tokens ∧
      (∃ stretches, score.Provenance tokens trackName stretches) ∧
      written.filter Stored.isMacro = score.storedMacros ∧
      written.filter (fun stored => !stored.isMacro) = score.storedMovements ∧
      (∀ name, score.names.get? name = Stored.meaning written name) ∧
      (∀ name entry, (name, entry) ∈ score.names.toList ↔
        Stored.meaning written name = some entry) ∧
      (∀ name entry, score.names.get? name = some entry → score.Defines name entry) ∧
      (∀ name index, score.names.macroIndex? name = some index → 0 < index) ∧
      ∀ passes, ∀ diagnostic ∈ (score.afterAll passes).2, ∀ name index,
        diagnostic.problem ≠ .ofCompiler (.missingMacro name index) := by
  obtain ⟨statements, diagnostics, read, stand, _⟩ := exists_ofTokens_eq_ok tokens trackName
  obtain ⟨written, named, isWritten⟩ := (namedBy_opened tokens trackName).exists_foldl stand
  have complete : NamedBy { statements.foldl Score.extended (opened tokens trackName) with
      diagnostics := diagnostics } written :=
    ⟨named.macros, named.movements, named.names, named.faithful⟩
  obtain ⟨filled, reported, stretches, place, again, trace, final, last, ends⟩ :=
    exists_trace tokens trackName
  have comes := provenance_of_trace trace last ends
  rw [Except.ok.inj (again.symm.trans read)] at comes
  refine ⟨_, written, read, isWritten, ⟨stretches, comes⟩, complete.macros, complete.movements, complete.names,
    fun name entry => ?_, fun _ _ => complete.defines, fun name index found => ?_,
    fun passes diagnostic member name index => ?_⟩
  · rw [complete.faithful, complete.names]
  · unfold NameTable.macroIndex? at found
    split at found
    · rename_i place isMacro
      rw [← Option.some.inj found]
      exact (complete.backed name place isMacro).1
    · contradiction
  · exact (complete.backed.isExpansion_afterAll passes diagnostic member).not_ofCompiler _

end Score

end Solfege
