import Solfege.Proofs.Blanks.Basic
import Solfege.Proofs.Reading.Accounting

/-!
Contract: steps of reading that go the same way when blanks are exchanged.

Owns:
- readings that are twins: they are alike but for exchanged blanks among their tokens;
- steps that are mirrored: if no problem is reported, what a step does with a reading its
  twin does with the twin of this reading, with the same result;
- how mirrored steps are put together from the steps that reading consists of.

Does not own: the grammar.

A blank may be looked at, and then the two readings go on with different tokens. This is why a
step is compared with a second one, and not with itself. Where a problem is reported the two
have nothing to do with each other, but no problem is taken back. So nothing has to be known
about what comes behind a problem.
-/

namespace Solfege.Reading

/-! ### Twins -/

/-- The tokens of two readings are the same from a place on, but for exchanged blanks. -/
structure Twins (place : Place) (before other : Reading) : Prop where
  tokens : Exchanged place before.rest other.rest
  last : other.last = before.last
  contexts : other.contexts = before.contexts
  diagnostics : other.diagnostics = before.diagnostics

namespace Twins

variable {place : Place} {before other : Reading}

theorem mates (twins : Twins place before other) : Mates before.current other.current := by
  unfold current
  rw [twins.last]
  exact twins.tokens.mates_head before.last

theorem current_eq (twins : Twins place before other)
    (stands : isWhitespace before.current.kind = false) : before.current = other.current :=
  twins.mates.eq stands

theorem current_eq_of_fixed (twins : Twins place before other) (fixed : place.Fixed) :
    before.current = other.current := by
  unfold current
  rw [twins.last]
  exact twins.tokens.head_eq fixed before.last

theorem advanced (twins : Twins place before other) :
    Twins (place.behind before.current.kind) before.advanced other.advanced where
  tokens := twins.tokens.tail before.last
  last := twins.last
  contexts := twins.contexts
  diagnostics := twins.diagnostics

theorem length_eq (twins : Twins place before other) :
    before.rest.length = other.rest.length :=
  twins.tokens.length_eq

end Twins

/-! ### Situations -/

/-- What is known of a place and of the kind of the token there. -/
abbrev Situation := Place → Token.Kind → Prop

/-- So many groups are open. -/
def InGroups (groups : Nat) : Situation := fun place _ => place.groups = groups

/-- So many groups are open, and an expression may begin here: a parenthesis would not stand
directly behind a name. Outside of groups, where no blank is exchanged, nothing depends on
this. -/
def Beginning (groups : Nat) : Situation := fun place kind =>
  place.groups = groups ∧ (groups ≠ 0 → place.front = .name → kind ≠ .leftParen)

/-- So many groups are open, and blanks are what they are. -/
def Held (groups : Nat) : Situation := fun place _ => place.groups = groups ∧ place.Fixed

theorem Beginning.inGroups {groups : Nat} {place : Place} {kind : Token.Kind}
    (beginning : Beginning groups place kind) : InGroups groups place kind :=
  beginning.1

/-! ### Mirrored steps -/

/-- If no problem is reported, the twin does with every twin of the reading what the step does
with the reading, and what is left are twins again. No problem is taken back. -/
def Mirrors {α : Type} (start : Situation) (step twin : Step α) (finish : Situation)
    (before : Reading) : Prop :=
  match step before with
  | .ok value after =>
      before.diagnostics.length ≤ after.diagnostics.length ∧
        (after.diagnostics = [] → ∀ place other, start place before.current.kind →
          Twins place before other → ∃ there otherAfter, twin other = .ok value otherAfter ∧
            finish there after.current.kind ∧ Twins there after otherAfter)
  | .error _ after => before.diagnostics.length ≤ after.diagnostics.length

section Building

variable {α β : Type} {start middle finish : Situation} {step twin : Step α}
  {before : Reading}

namespace Mirrors

theorem of_ok (mirrors : Mirrors start step twin finish before) {value : α} {after : Reading}
    (result : step before = .ok value after) :
    before.diagnostics.length ≤ after.diagnostics.length ∧
      (after.diagnostics = [] → ∀ place other, start place before.current.kind →
        Twins place before other → ∃ there otherAfter, twin other = .ok value otherAfter ∧
          finish there after.current.kind ∧ Twins there after otherAfter) := by
  unfold Mirrors at mirrors
  rw [result] at mirrors
  exact mirrors

theorem of_error (mirrors : Mirrors start step twin finish before) {halt : Halt}
    {after : Reading} (result : step before = .error halt after) :
    before.diagnostics.length ≤ after.diagnostics.length := by
  unfold Mirrors at mirrors
  rw [result] at mirrors
  exact mirrors

theorem of_results
    (done : ∀ value after, step before = .ok value after →
      before.diagnostics.length ≤ after.diagnostics.length ∧
        (after.diagnostics = [] → ∀ place other, start place before.current.kind →
          Twins place before other → ∃ there otherAfter, twin other = .ok value otherAfter ∧
            finish there after.current.kind ∧ Twins there after otherAfter))
    (halted : ∀ halt after, step before = .error halt after →
      before.diagnostics.length ≤ after.diagnostics.length) :
    Mirrors start step twin finish before := by
  unfold Mirrors
  cases result : step before with
  | ok value after => exact done value after result
  | error halt after => exact halted halt after result

/-- Less may be known behind a step, and more in front of it. -/
theorem mono {stronger weaker : Situation} (mirrors : Mirrors start step twin finish before)
    (front : ∀ place kind, stronger place kind → start place kind)
    (behind : ∀ place kind, finish place kind → weaker place kind) :
    Mirrors stronger step twin weaker before := by
  refine .of_results (fun value after result => ?_) fun _ _ => mirrors.of_error
  obtain ⟨kept, goes⟩ := mirrors.of_ok result
  refine ⟨kept, fun silent place other known twins => ?_⟩
  obtain ⟨there, otherAfter, same, here, still⟩ :=
    goes silent place other (front _ _ known) twins
  exact ⟨there, otherAfter, same, behind _ _ here, still⟩

/-- Where there is a problem, nothing has to be mirrored. -/
theorem of_loud (loud : Loud step) : Mirrors start step twin finish before := by
  refine .of_results ?_ ?_
  · intro value after result
    have more := loud.ok_le result
    refine ⟨by omega, fun silent => ?_⟩
    rw [silent] at more
    simp at more
  · intro halt after result
    have more := loud.error_le result
    omega

/-- Where a step stops, nothing has to be mirrored. -/
theorem of_stops {halt : Halt} (stops : step before = .error halt before) :
    Mirrors start step twin finish before := by
  simp [Mirrors, stops]

/-- The twin goes on where the step does. Behind a halt there must be a problem. -/
theorem handle {next nextTwin : α → Step β} {rescue rescueTwin : Halt → Step β}
    (first : Mirrors start step twin middle before)
    (rest : ∀ value after, Mirrors middle (next value) (nextTwin value) finish after)
    (rescued : ∀ halt, Loud (rescue halt)) :
    Mirrors start
      (fun reading =>
        match step reading with
        | .ok value after => next value after
        | .error halt after => rescue halt after)
      (fun reading =>
        match twin reading with
        | .ok value after => nextTwin value after
        | .error halt after => rescueTwin halt after) finish before := by
  cases result : step before with
  | ok value between =>
      obtain ⟨kept, goes⟩ := first.of_ok result
      have onward := rest value between
      refine .of_results ?_ ?_
      · intro final after last
        rw [result] at last
        obtain ⟨keptOnward, goesOnward⟩ := onward.of_ok last
        refine ⟨Nat.le_trans kept keptOnward, fun silent place other known twins => ?_⟩
        have silentBetween : between.diagnostics = [] := by
          rw [silent] at keptOnward
          exact List.eq_nil_of_length_eq_zero (Nat.le_zero.mp keptOnward)
        obtain ⟨there, otherBetween, same, knownThere, twinsThere⟩ :=
          goes silentBetween place other known twins
        rw [same]
        exact goesOnward silent there otherBetween knownThere twinsThere
      · intro halt after last
        rw [result] at last
        exact Nat.le_trans kept (onward.of_error last)
  | error halt between =>
      have kept := first.of_error result
      refine .of_results ?_ ?_
      · intro final after last
        rw [result] at last
        have more := (rescued halt).ok_le last
        refine ⟨by omega, fun silent => ?_⟩
        rw [silent] at more
        simp at more
      · intro final after last
        rw [result] at last
        have more := (rescued halt).error_le last
        omega

theorem bind {next nextTwin : α → Step β} (first : Mirrors start step twin middle before)
    (rest : ∀ value after, Mirrors middle (next value) (nextTwin value) finish after) :
    Mirrors start (step >>= next) (twin >>= nextTwin) finish before := by
  rw [bind_eq_handle, bind_eq_handle]
  exact first.handle rest .throw

theorem ite {condition : Prop} [Decidable condition] {others othersTwin : Step α}
    (holds : condition → Mirrors start step twin finish before)
    (fails : ¬condition → Mirrors start others othersTwin finish before) :
    Mirrors start (if condition then step else others) (if condition then twin else othersTwin)
      finish before := by
  by_cases decided : condition
  · rw [if_pos decided, if_pos decided]
    exact holds decided
  · rw [if_neg decided, if_neg decided]
    exact fails decided

/-- A step may depend on the number of tokens that are left. -/
theorem at_length {family : Nat → Step α}
    (mirrors : ∀ bound, Mirrors start (family bound) (family bound) finish before) :
    Mirrors start (fun reading => family (reading.rest.length + 1) reading)
      (fun reading => family (reading.rest.length + 1) reading) finish before := by
  have here := mirrors (before.rest.length + 1)
  refine .of_results (fun value after result => ?_) fun _ _ => here.of_error
  obtain ⟨kept, goes⟩ := here.of_ok result
  refine ⟨kept, fun silent place other known twins => ?_⟩
  rw [← twins.length_eq]
  exact goes silent place other known twins

/-- A step that is mirrored wherever it starts takes back no problem. -/
theorem steady (mirrors : ∀ before, Mirrors start step twin finish before) : Steady step :=
  .of_results (fun before _ _ result => ((mirrors before).of_ok result).1)
    (fun before _ _ result => (mirrors before).of_error result)

end Mirrors

/-! ### Ends -/

theorem mirrors_pure {value : α}
    (known : ∀ place, start place before.current.kind → finish place before.current.kind) :
    Mirrors start (pure value) (pure value) finish before :=
  ⟨Nat.le_refl _, fun _ place other here twins => ⟨place, other, rfl, known place here, twins⟩⟩

theorem mirrors_refuse (diagnostic : Diagnostic) :
    Mirrors start (refuse diagnostic : Step α) twin finish before :=
  .of_stops rfl

theorem mirrors_abort (problem : InternalProblem) :
    Mirrors start (abort problem : Step α) twin finish before :=
  .of_stops rfl

theorem mirrors_unexpected (expected : Expectation) :
    Mirrors start (unexpected expected : Step α) twin finish before :=
  .of_stops rfl

/-! ### Steps on tokens -/

section Tokens

variable {next nextTwin : Token → Step β}

/-- The token that is looked at is the same, or it is a blank for both. -/
theorem peek_mirrors
    (onward : ∀ token, Mates before.current token →
      Mirrors start (next before.current) (nextTwin token) finish before) :
    Mirrors start (peek >>= next) (peek >>= nextTwin) finish before := by
  refine .of_results (fun value after result => ?_) fun halt after result =>
    (onward before.current (.inl rfl)).of_error result
  refine ⟨((onward before.current (.inl rfl)).of_ok result).1,
    fun silent place other known twins => ?_⟩
  exact ((onward other.current twins.mates).of_ok result).2 silent place other known twins

/-- Outside of groups it is the same. -/
theorem peek_mirrors_inGroups {groups : Nat}
    (inside : ∀ place kind, start place kind → InGroups groups place kind)
    (onward : ∀ token, Mates before.current token → (groups = 0 → before.current = token) →
      Mirrors start (next before.current) (nextTwin token) finish before) :
    Mirrors start (peek >>= next) (peek >>= nextTwin) finish before := by
  have here := onward before.current (.inl rfl) fun _ => rfl
  refine .of_results (fun value after result => ?_) fun halt after result => here.of_error result
  refine ⟨(here.of_ok result).1, fun silent place other known twins => ?_⟩
  have outside : groups = 0 → before.current = other.current := fun none =>
    twins.current_eq_of_fixed (.inl ((inside _ _ known).trans none))
  exact ((onward other.current twins.mates outside).of_ok result).2 silent place other known twins

/-- Where a blank would stop the step, the token is the same. -/
theorem peek_mirrors_or_stops
    (blank : isWhitespace before.current.kind = true →
      ∃ halt, next before.current before = .error halt before)
    (onward : isWhitespace before.current.kind = false →
      Mirrors start (next before.current) (nextTwin before.current) finish before) :
    Mirrors start (peek >>= next) (peek >>= nextTwin) finish before := by
  refine peek_mirrors fun token mates => ?_
  cases stands : isWhitespace before.current.kind with
  | true =>
      obtain ⟨halt, stops⟩ := blank stands
      exact .of_stops stops
  | false =>
      rw [← mates.eq stands]
      exact onward stands

theorem check_mirrors {others othersTwin : Step α} (kind : Token.Kind)
    (stands : isWhitespace kind = false)
    (is : before.current.kind = kind → Mirrors start step twin finish before)
    (isNot : before.current.kind ≠ kind → Mirrors start others othersTwin finish before) :
    Mirrors start (do if ← check kind then step else others)
      (do if ← check kind then twin else othersTwin) finish before := by
  refine .of_results (fun value after result => ?_) fun halt after result => ?_
  · rw [check_then] at result
    by_cases same : before.current.kind = kind
    · rw [if_pos same] at result
      obtain ⟨kept, goes⟩ := (is same).of_ok result
      refine ⟨kept, fun silent place other known twins => ?_⟩
      rw [check_then, if_pos ((twins.mates.kind_eq_iff stands).mp same)]
      exact goes silent place other known twins
    · rw [if_neg same] at result
      obtain ⟨kept, goes⟩ := (isNot same).of_ok result
      refine ⟨kept, fun silent place other known twins => ?_⟩
      rw [check_then, if_neg (mt (twins.mates.kind_eq_iff stands).mpr same)]
      exact goes silent place other known twins
  · rw [check_then] at result
    by_cases same : before.current.kind = kind
    · rw [if_pos same] at result
      exact (is same).of_error result
    · rw [if_neg same] at result
      exact (isNot same).of_error result

theorem followsExpression_mirrors {others othersTwin : Step α}
    (opened : Mirrors start step twin finish before)
    (first : Mirrors start others othersTwin finish before) :
    Mirrors start (do if ← followsExpression then step else others)
      (do if ← followsExpression then twin else othersTwin) finish before := by
  have either : Mirrors start
      (if before.contexts.head? = some .expression then step else others)
      (if before.contexts.head? = some .expression then twin else othersTwin) finish before :=
    .ite (fun _ => opened) fun _ => first
  refine .of_results (fun value after result => ?_) fun halt after result => ?_
  · rw [followsExpression_then] at result
    obtain ⟨kept, goes⟩ := either.of_ok result
    refine ⟨kept, fun silent place other known twins => ?_⟩
    rw [followsExpression_then, twins.contexts]
    exact goes silent place other known twins
  · rw [followsExpression_then] at result
    exact either.of_error result

/-- A token that is no blank is read by both. -/
theorem advance_mirrors (stands : isWhitespace before.current.kind = false)
    (moves : ∀ place, start place before.current.kind →
      middle (place.behind before.current.kind) before.advanced.current.kind)
    (onward : Mirrors middle (next before.current) (nextTwin before.current) finish
      before.advanced) :
    Mirrors start (advance >>= next) (advance >>= nextTwin) finish before := by
  refine .of_results (fun value after result => ?_) fun halt after result =>
    onward.of_error result
  obtain ⟨kept, goes⟩ := onward.of_ok result
  refine ⟨kept, fun silent place other known twins => ?_⟩
  have same : (advance >>= nextTwin) other = nextTwin other.current other.advanced := rfl
  rw [same, ← twins.current_eq stands]
  exact goes silent _ _ (moves place known) twins.advanced

theorem mirrors_advance (stands : isWhitespace before.current.kind = false)
    (moves : ∀ place, start place before.current.kind →
      finish (place.behind before.current.kind) before.advanced.current.kind) :
    Mirrors start advance advance finish before := by
  refine ⟨Nat.le_refl _, fun _ place other known twins => ?_⟩
  refine ⟨_, other.advanced, ?_, moves place known, twins.advanced⟩
  rw [twins.current_eq stands]
  rfl

/-- An expected token is no blank. -/
theorem mirrors_expect {kind : Token.Kind} (stands : isWhitespace kind = false)
    (expected : Expectation)
    (moves : ∀ place following, start place kind → finish (place.behind kind) following) :
    Mirrors start (expect kind expected) (expect kind expected) finish before := by
  refine check_mirrors kind stands (fun here => ?_) fun _ => mirrors_unexpected expected
  refine mirrors_advance (by rw [here]; exact stands) fun place known => ?_
  rw [here] at known ⊢
  exact moves place _ known

theorem mirrors_skipping {test : Token.Kind → Bool}
    (moves : ∀ place other, start place before.current.kind → Twins place before other →
      ∃ there, finish there (before.skip test).current.kind ∧
        Twins there (before.skip test) (other.skip test)) :
    Mirrors start (skipping test) (skipping test) finish before := by
  refine ⟨Nat.le_refl _, fun _ place other known twins => ?_⟩
  obtain ⟨there, here, still⟩ := moves place other known twins
  exact ⟨there, other.skip test, rfl, here, still⟩

theorem mirrors_numberValue (token : Token) :
    Mirrors start (numberValue token) (numberValue token) start before := by
  unfold numberValue
  split
  · exact mirrors_pure fun _ => id
  · exact mirrors_refuse _

theorem mirrors_stringValue (token : Token) :
    Mirrors start (stringValue token) (stringValue token) start before :=
  .ite (fun _ => mirrors_pure fun _ => id) fun _ => mirrors_refuse _

end Tokens

/-! ### Problems and nesting -/

/-- A problem that is handed on has to be reported. -/
theorem attempt_mirrors {next nextTwin : Except Diagnostic α → Step β}
    (first : Mirrors start step twin middle before)
    (ok : ∀ value after, Mirrors middle (next (.ok value)) (nextTwin (.ok value)) finish after)
    (error : ∀ diagnostic, Loud (next (.error diagnostic))) :
    Mirrors start (attempt step >>= next) (attempt twin >>= nextTwin) finish before := by
  rw [attempt_bind_eq_handle, attempt_bind_eq_handle]
  refine first.handle ok fun halt => ?_
  cases halt with
  | recoverable diagnostic => exact error diagnostic
  | fatal diagnostic => exact .throw _

theorem mirrors_enter (context : Context) :
    Mirrors start (enter context) (enter context) start before := by
  refine ⟨Nat.le_refl _, fun _ place other known twins => ?_⟩
  refine ⟨place, other.inside context, rfl, known, twins.tokens, twins.last, ?_,
    twins.diagnostics⟩
  exact congrArg (context :: ·) twins.contexts

theorem mirrors_leave (context : Context) :
    Mirrors start (leave context) (leave context) start before := by
  rcases leave_cases context before with ⟨outer, innermost⟩ | ⟨diagnostic, after, stopped⟩
  · refine .of_results (fun value after result => ?_) fun halt after result => ?_
    · rw [leave_of_contexts innermost] at result
      cases result
      refine ⟨Nat.le_refl _, fun _ place other known twins => ?_⟩
      refine ⟨place, _, leave_of_contexts (twins.contexts.trans innermost), known,
        twins.tokens, twins.last, rfl, twins.diagnostics⟩
    · rw [leave_of_contexts innermost] at result
      contradiction
  · refine .of_results (fun value after result => ?_) fun halt after result =>
      (steady_leave context).error_le result
    rw [stopped] at result
    contradiction

/-- Being inside of a construct makes no difference. -/
theorem mirrors_within (context : Context)
    (mirrors : ∀ inside, Mirrors start step twin finish inside) :
    Mirrors start (within context step) (within context twin) finish before :=
  (mirrors_enter context).bind fun _ entered => (mirrors entered).handle
    (fun _ _ => (mirrors_leave context).bind fun _ _ => mirrors_pure fun _ => id)
    (fun halt => (steady_leave context).bind fun _ => .throw halt)

/-! ### Tokens in groups -/

/-- Whether a kind is no blank, leaves the groups as they are, and is no name. -/
def keepsPlace : Token.Kind → Bool
  | .space | .newline | .leftBracket | .rightBracket | .word => false
  | _ => true

section Groups

variable {groups : Nat} {next nextTwin : Token → Step β}

theorem stands_of_keepsPlace {kind : Token.Kind} (keeps : keepsPlace kind = true) :
    isWhitespace kind = false := by
  cases kind <;> first | rfl | contradiction

theorem beginning_behind {kind : Token.Kind} (keeps : keepsPlace kind = true) (place : Place)
    (inGroups : place.groups = groups) (following : Token.Kind) :
    Beginning groups (place.behind kind) following := by
  refine ⟨?_, fun _ name => ?_⟩
  · rw [← inGroups]
    cases kind <;> first | rfl | contradiction
  · cases kind with
    | leftParen =>
        simp only [Place.behind, Front.behind] at name
        split at name <;> contradiction
    | _ => contradiction

theorem advance_inGroups (keeps : keepsPlace before.current.kind = true)
    (onward : Mirrors (Beginning groups) (next before.current) (nextTwin before.current) finish
      before.advanced) :
    Mirrors (InGroups groups) (advance >>= next) (advance >>= nextTwin) finish before :=
  advance_mirrors (stands_of_keepsPlace keeps)
    (fun place inGroups => beginning_behind keeps place inGroups _) onward

/-- Behind most tokens an expression may begin. -/
theorem advance_ready (keeps : keepsPlace before.current.kind = true)
    (onward : Mirrors (Beginning groups) (next before.current) (nextTwin before.current) finish
      before.advanced) :
    Mirrors (Beginning groups) (advance >>= next) (advance >>= nextTwin) finish before :=
  (advance_inGroups keeps onward).mono (fun _ _ => Beginning.inGroups) fun _ _ => id

theorem mirrors_expect_ready {kind : Token.Kind} (keeps : keepsPlace kind = true)
    (expected : Expectation) :
    Mirrors (Beginning groups) (expect kind expected) (expect kind expected) (Beginning groups)
      before :=
  mirrors_expect (stands_of_keepsPlace keeps) expected
    fun place following beginning => beginning_behind keeps place beginning.1 following

theorem mirrors_expectNumber (expected : Expectation) :
    Mirrors (Beginning groups) (expectNumber expected) (expectNumber expected) (Beginning groups)
      before :=
  (mirrors_expect_ready rfl expected).bind fun token _ => mirrors_numberValue token

/-- Behind what a neutral test skips, an expression may begin if it might in front. -/
theorem mirrors_skipping_neutral {test : Token.Kind → Bool} (neutral : Neutral test) :
    Mirrors (Beginning groups) (skipping test) (skipping test) (Beginning groups) before := by
  refine mirrors_skipping fun place other beginning twins => ?_
  obtain ⟨there, tokens, sameGroups, unmoved⟩ := twins.tokens.dropWhile neutral
  refine ⟨there, ⟨sameGroups.trans beginning.1, fun inside name => ?_⟩, tokens, twins.last,
    twins.contexts, twins.diagnostics⟩
  obtain ⟨rfl, same⟩ := unmoved name
  have still : before.skip test = before := congrArg (fun rest => { before with rest }) same
  rw [still]
  exact beginning.2 inside name

theorem neutral_isWhitespace : Neutral isWhitespace := ⟨rfl, rfl, rfl, rfl, rfl⟩

theorem mirrors_skipWhitespace :
    Mirrors (Beginning groups) skipWhitespace skipWhitespace (Beginning groups) before :=
  mirrors_skipping_neutral neutral_isWhitespace

theorem isWhitespace_of_isSpace (kind : Token.Kind) (space : isSpace kind = true) :
    isWhitespace kind = true := by
  cases kind <;> first | rfl | contradiction

/-- Where blanks are what they are, spaces may be skipped and newlines not. -/
theorem mirrors_skipSpace_held :
    Mirrors (Held groups) skipSpace skipSpace (Beginning groups) before := by
  refine mirrors_skipping fun place other held twins => ?_
  obtain ⟨there, tokens, sameGroups, fixed⟩ :=
    twins.tokens.dropWhile_of_fixed isWhitespace_of_isSpace held.2
  refine ⟨there, ⟨sameGroups.trans held.1, fun inside name => ?_⟩, tokens, twins.last,
    twins.contexts, twins.diagnostics⟩
  rcases fixed with outside | hold
  · exact absurd (held.1.symm.trans (sameGroups.symm.trans outside)) inside
  · rw [hold] at name
    contradiction

/-- Outside of groups, blanks are what they are. -/
theorem Beginning.held {place : Place} {kind : Token.Kind} (beginning : Beginning 0 place kind) :
    Held 0 place kind :=
  ⟨beginning.1, .inl beginning.1⟩

theorem mirrors_skipSpace : Mirrors (Beginning 0) skipSpace skipSpace (Beginning 0) before :=
  mirrors_skipSpace_held.mono (fun _ _ => Beginning.held) fun _ _ => id

end Groups

end Building

end Solfege.Reading
