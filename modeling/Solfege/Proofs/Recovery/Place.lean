import Solfege.Proofs.Recovery.Basic
import Mathlib.Data.List.Chain

/-!
Contract: where a reader stands inside of a call.

Owns:
- the tokens up to the end of the call, and the closing brackets that are expected among them;
- the parentheses that are left over behind a problem that was recovered from;
- the places that a reader comes to by reading one token, by skipping blanks and by resuming.

Does not own: the grammar.

A reader that resumed too early stands in front of parentheses that no call waits for any more.
The base holds the closing brackets that the constructs around the reader do wait for. The
parentheses that are left over can be counted in front of those of the base, since one
parenthesis is as good as another: a call that takes one of them for its own leaves its own over.
-/

namespace Solfege.Reading

/-! ### Places -/

/-- A round bracket opens behind a word only, and none closes behind a slash. -/
def MayFollow (first second : Token) : Prop :=
  (second.kind = .leftParen → first.kind = .word) ∧
    (second.kind = .rightParen → first.kind ≠ .slash)

instance : DecidableRel MayFollow :=
  fun _ _ => inferInstanceAs (Decidable ((_ → _) ∧ (_ → _)))

/-- Whether a kind neither is a bracket, nor a word, behind which one may open, nor ends the
file. -/
def standsAlone : Token.Kind → Bool
  | .leftParen | .rightParen | .leftBracket | .rightBracket | .word | .endOfFile => false
  | _ => true

theorem isInert_of_standsAlone {kind : Token.Kind} (alone : standsAlone kind = true) :
    isInert kind = true := by
  cases kind <;> first | rfl | contradiction

theorem not_word_of_standsAlone {kind : Token.Kind} (alone : standsAlone kind = true) :
    kind ≠ .word := by
  rintro rfl
  contradiction

/-- What a reader that is inside of a call goes by: the tokens up to the end of the call and those
behind it, how many problems had been reported, and whether the calls inside are grouped. -/
structure Scope where
  tokens : List Token
  behind : List Token
  reported : Nat
  grouped : Bool

/-- The scope of what is read from a state on. -/
def Scope.since (scope : Scope) (reading : Reading) : Scope :=
  { scope with reported := reading.diagnostics.length }

/-- What is left of the tokens of the scope brings the closing brackets. -/
def Stands (scope : Scope) (closers : List Token.Kind) (reading : Reading) : Prop :=
  ∃ left, reading.rest = left ++ scope.behind ∧ left <:+ scope.tokens ∧
    Closes scope.grouped closers left ∧ left.IsChain MayFollow

/-- The closing brackets of the base are expected, and in front of them some parentheses
more, which a problem that was recovered from left over. -/
structure Expects (scope : Scope) (base : List Token.Kind) (extra : Nat) (reading : Reading) :
    Prop where
  stands : Stands scope (List.replicate extra .rightParen ++ base) reading
  inside : base ≠ [] → reading.current.kind ≠ .leftParen
  reported : scope.reported ≤ reading.diagnostics.length
  excused : extra = 0 ∨ scope.reported < reading.diagnostics.length ∧
    (scope.grouped = true → .rightBracket ∈ base)

/-- The closing brackets of the base are expected, whatever is left over. -/
def Reaches (scope : Scope) (base : List Token.Kind) (reading : Reading) : Prop :=
  ∃ extra, Expects scope base extra reading

/-- An expression may begin here: no bracket of the base closes first. -/
def Begins (scope : Scope) (base : List Token.Kind) (reading : Reading) : Prop :=
  ∃ extra, Expects scope base extra reading ∧ (reading.current.kind = .rightParen → extra ≠ 0)

/-- The reader stands at a closing bracket of the kind that is expected before those of the
base. -/
structure AtCloser (scope : Scope) (bracket : Token.Kind) (base : List Token.Kind)
    (reading : Reading) : Prop where
  reaches : Reaches scope (bracket :: base) reading
  closes : reading.current.kind = bracket

/-- The reader has just read a closing parenthesis, and those of the base are expected. -/
structure Ended (scope : Scope) (base : List Token.Kind) (reading : Reading) : Prop where
  reaches : Reaches scope base reading
  behind : ∃ closing left, closing.kind = .rightParen ∧ closing :: left <:+ scope.tokens ∧
    reading.rest = left ++ scope.behind

section Places

variable {scope : Scope} {base closers : List Token.Kind} {extra : Nat}
variable {before after : Reading}

/-! ### The current token -/

/-- While a closing bracket is expected, the current token is one of the scope. Behind it those
are expected that are expected behind its kind. -/
theorem Stands.advanced (stands : Stands scope closers before) (expected : closers ≠ []) :
    ∃ next, closersBehind closers before.current.kind = some next ∧
      Stands scope next before.advanced ∧
      (next ≠ [] → MayFollow before.current before.advanced.current) := by
  obtain ⟨left, rest, among, closes, chain⟩ := stands
  obtain ⟨first, tail, next, rfl, step, onward⟩ := closes.exists_cons expected
  have here : before.current = first := current_cons rest
  have others : before.advanced.rest = tail ++ scope.behind := by
    show before.rest.tail = _
    rw [rest]
    rfl
  have amongTail := (List.suffix_cons first tail).trans among
  refine ⟨next, by rw [here, step], ⟨tail, others, amongTail, onward, chain.tail⟩,
    fun more => ?_⟩
  obtain ⟨second, behind, _, rfl, _⟩ := onward.exists_cons more
  rw [here, current_cons others]
  exact (List.isChain_cons_cons.mp chain).1

theorem Stands.advanced_inert (stands : Stands scope closers before) (expected : closers ≠ [])
    (inert : isInert before.current.kind = true) :
    Stands scope closers before.advanced ∧
      MayFollow before.current before.advanced.current := by
  obtain ⟨next, step, onward, follows⟩ := stands.advanced expected
  rw [closersBehind_of_isInert inert expected] at step
  obtain rfl := Option.some.inj step
  exact ⟨onward, follows expected⟩

/-- Where a reader stands depends on its tokens only, and on how many problems it has reported. -/
theorem Expects.congr (expects : Expects scope base extra before) (rest : after.rest = before.rest)
    (current : after.current = before.current)
    (diagnostics : before.diagnostics.length ≤ after.diagnostics.length) :
    Expects scope base extra after where
  stands := by
    obtain ⟨left, same, found⟩ := expects.stands
    exact ⟨left, rest.trans same, found⟩
  inside more := by
    rw [current]
    exact expects.inside more
  reported := by
    have reported := expects.reported
    omega
  excused := by
    refine expects.excused.imp_right fun excused => ⟨?_, excused.2⟩
    omega

theorem replicate_append_ne_nil (extra : Nat) (filled : base ≠ []) :
    List.replicate extra Token.Kind.rightParen ++ base ≠ [] := by
  simp [filled]

/-- No closing bracket comes and goes with a token that is none. -/
theorem Expects.advanced (expects : Expects scope base extra before) (filled : base ≠ [])
    (inert : isInert before.current.kind = true)
    (inside : before.current.kind = .word → before.advanced.current.kind ≠ .leftParen) :
    Expects scope base extra before.advanced := by
  obtain ⟨stands, follows⟩ :=
    expects.stands.advanced_inert (replicate_append_ne_nil extra filled) inert
  exact ⟨stands, fun _ opens => inside (follows.1 opens) opens, expects.reported, expects.excused⟩

theorem Expects.advanced_alone (expects : Expects scope base extra before) (filled : base ≠ [])
    (alone : standsAlone before.current.kind = true) : Expects scope base extra before.advanced :=
  expects.advanced filled (isInert_of_standsAlone alone)
    fun isWord => absurd isWord (not_word_of_standsAlone alone)

theorem Reaches.not_endOfFile (reaches : Reaches scope base before) (filled : base ≠ []) :
    before.current.kind ≠ .endOfFile := by
  obtain ⟨extra, expects⟩ := reaches
  obtain ⟨_, step, _⟩ := expects.stands.advanced (replicate_append_ne_nil extra filled)
  exact not_endOfFile_of_closersBehind step

/-! ### Where expressions begin -/

theorem Reaches.begins (reaches : Reaches scope base before)
    (onward : before.current.kind ≠ .rightParen) : Begins scope base before :=
  reaches.imp fun _ expects => ⟨expects, fun closes => absurd closes onward⟩

theorem Begins.reaches (begins : Begins scope base before) : Reaches scope base before :=
  begins.imp fun _ found => found.1

theorem Begins.congr (begins : Begins scope base before) (rest : after.rest = before.rest)
    (current : after.current = before.current)
    (diagnostics : before.diagnostics.length ≤ after.diagnostics.length) :
    Begins scope base after :=
  begins.imp fun _ found =>
    ⟨found.1.congr rest current diagnostics, by rw [current]; exact found.2⟩

theorem Reaches.begins_behind_slash (reaches : Reaches scope base before) (filled : base ≠ [])
    (slash : before.current.kind = .slash) : Begins scope base before.advanced := by
  obtain ⟨extra, expects⟩ := reaches
  obtain ⟨_, follows⟩ :=
    expects.stands.advanced_inert (replicate_append_ne_nil extra filled) (by rw [slash]; rfl)
  have behind := expects.advanced_alone filled (by rw [slash]; rfl)
  exact Reaches.begins ⟨extra, behind⟩ fun closes => follows.2 closes slash

/-- In a group no parenthesis of the base closes before the group does. -/
theorem Reaches.begins_in_group (reaches : Reaches scope (.rightBracket :: base) before) :
    Begins scope (.rightBracket :: base) before := by
  obtain ⟨extra, expects⟩ := reaches
  refine ⟨extra, expects, fun closes => ?_⟩
  rintro rfl
  obtain ⟨_, step, _⟩ := expects.stands.advanced (List.cons_ne_nil _ _)
  rw [closes] at step
  contradiction

/-! ### Brackets -/

/-- Behind an opening bracket its closing one is expected, and nothing is left over before it. -/
theorem Stands.opened (stands : Stands scope closers before) (expected : closers ≠ [])
    {bracket : Token.Kind} (opens : closersBehind closers before.current.kind =
      some (bracket :: closers)) (noWord : before.current.kind ≠ .word) :
    Reaches (scope.since before) (bracket :: closers) before.advanced := by
  obtain ⟨next, step, onward, follows⟩ := stands.advanced expected
  obtain rfl := Option.some.inj (opens.symm.trans step)
  exact ⟨0, onward, fun more opensNext => noWord ((follows more).1 opensNext), Nat.le_refl _,
    .inl rfl⟩

/-- A closing parenthesis that is left over is read. -/
theorem Begins.released (begins : Begins scope base before) (filled : base ≠ [])
    (closes : before.current.kind = .rightParen) : Reaches scope base before.advanced := by
  obtain ⟨extra, expects, some⟩ := begins
  cases extra with
  | zero => exact absurd rfl (some closes)
  | succ extra =>
      obtain ⟨next, step, stands, follows⟩ := expects.stands.advanced (by simp)
      rw [closes] at step
      obtain rfl := Option.some.inj step
      refine ⟨extra, stands, fun _ opens => ?_, expects.reported, .inr ?_⟩
      · have isWord := (follows (replicate_append_ne_nil extra filled)).1 opens
        rw [closes] at isWord
        contradiction
      · exact expects.excused.resolve_left (Nat.succ_ne_zero _)

/-- Parentheses that are left over stand in front of a closing parenthesis as they do behind it,
and in front of the end of a group there are none. -/
theorem closersBehind_left_over {bracket : Token.Kind} {next : List Token.Kind}
    (step : closersBehind (List.replicate extra .rightParen ++ bracket :: base) bracket = some next)
    (brackets : bracket = .rightParen ∨ bracket = .rightBracket) :
    next = List.replicate extra .rightParen ++ base ∧ (bracket = .rightBracket → extra = 0) := by
  rcases brackets with rfl | rfl
  · have moved : List.replicate extra Token.Kind.rightParen ++ .rightParen :: base =
        .rightParen :: (List.replicate extra .rightParen ++ base) := by
      rw [← List.cons_append, ← List.replicate_succ, List.replicate_succ', List.append_assoc]
      rfl
    rw [moved] at step
    exact ⟨(Option.some.inj step).symm, fun impossible => by contradiction⟩
  · cases extra with
    | zero => exact ⟨(Option.some.inj step).symm, fun _ => rfl⟩
    | succ extra => contradiction

/-- A closing bracket is read. It may be one that is left over, and then the one that was
expected is left over in its place. -/
theorem AtCloser.closed {bracket : Token.Kind} (there : AtCloser scope bracket base before)
    (brackets : bracket = .rightParen ∨ bracket = .rightBracket) :
    Reaches scope base before.advanced := by
  obtain ⟨⟨extra, expects⟩, closes⟩ := there
  have expected := replicate_append_ne_nil extra (List.cons_ne_nil bracket base)
  obtain ⟨next, step, stands, follows⟩ := expects.stands.advanced expected
  rw [closes] at step
  obtain ⟨rfl, square⟩ := closersBehind_left_over step brackets
  refine ⟨extra, stands, fun filled opens => ?_, expects.reported, ?_⟩
  · have isWord := (follows (replicate_append_ne_nil extra filled)).1 opens
    rw [closes] at isWord
    rcases brackets with rfl | rfl <;> contradiction
  · rcases brackets with rfl | rfl
    · refine expects.excused.imp_right fun excused => ⟨excused.1, fun grouped => ?_⟩
      simpa using excused.2 grouped
    · exact .inl (square rfl)

theorem AtCloser.ended (there : AtCloser scope .rightParen base before) :
    Ended scope base before.advanced where
  reaches := there.closed (.inl rfl)
  behind := by
    obtain ⟨⟨extra, expects⟩, closes⟩ := there
    obtain ⟨left, rest, among, brings, _⟩ := expects.stands
    obtain ⟨first, tail, _, rfl, _⟩ := brings.exists_cons (by simp)
    refine ⟨first, tail, by rwa [← current_cons rest], among, ?_⟩
    show before.rest.tail = _
    rw [rest]
    rfl

/-! ### Blanks and problems -/

theorem Expects.skip {test : Token.Kind → Bool} (expects : Expects scope base extra before)
    (filled : base ≠ [])
    (blank : ∀ kind, test kind = true → standsAlone kind = true) :
    Expects scope base extra (before.skip test) := by
  obtain ⟨tokens, last, contexts, diagnostics⟩ := before
  induction tokens with
  | nil => exact expects
  | cons first rest inductionHypothesis =>
      by_cases passes : test first.kind = true
      · have skipped : Reading.skip test ⟨first :: rest, last, contexts, diagnostics⟩ =
            Reading.skip test ⟨rest, last, contexts, diagnostics⟩ := by
          simp [Reading.skip, passes]
        rw [skipped]
        exact inductionHypothesis (expects.advanced_alone filled (blank _ passes))
      · have stands : test first.kind = false := by simpa using passes
        rwa [skip_of_current stands]

/-- The parentheses that are left over stand above those of the base. -/
theorem Expects.above (expects : Expects scope base extra before) :
    Above scope.grouped base (List.replicate extra .rightParen) := by
  refine ⟨fun kind member => .inl (List.eq_of_mem_replicate member), fun grouped => ?_⟩
  rcases expects.excused with rfl | ⟨_, below⟩
  · exact .inl rfl
  · exact .inr (.inr (below grouped))

/-- Behind a problem, the reader goes on at a closing bracket of the kind that it looks for. -/
theorem Reaches.resumed {test : Token.Kind → Bool} {bracket : Token.Kind}
    (reaches : Reaches scope (bracket :: base) before)
    (reported : scope.reported < before.diagnostics.length)
    (tests : ∀ kind, test kind = true ↔ kind = bracket)
    (brackets : bracket = .rightParen ∨ bracket = .rightBracket) :
    AtCloser scope bracket base { before with rest := resumption test 0 before.rest } := by
  obtain ⟨extra, expects⟩ := reaches
  obtain ⟨region, rest, among, closes, chain⟩ := expects.stands
  have noSquare : (List.replicate extra Token.Kind.rightParen).count .rightBracket = 0 := by
    simp [List.count_replicate]
  -- Nothing but parentheses is left over, so the depth that resuming begins with is theirs.
  obtain ⟨more, left, there, shorter, ⟨first, head, kind⟩, closesLeft, below⟩ :=
    closes.resumption expects.above tests scope.behind
  rw [noSquare, ← rest] at there
  obtain ⟨tail, rfl⟩ : ∃ tail, left = first :: tail := List.head?_eq_some_iff.mp head
  have current : { before with rest := resumption test 0 before.rest }.current.kind = bracket := by
    rw [current_cons there, kind]
  refine ⟨⟨more, ?_, fun _ => ?_, expects.reported, ?_⟩, current⟩
  · exact ⟨_, there, shorter.trans among, closesLeft, chain.suffix shorter⟩
  · rw [current]
    rcases brackets with rfl | rfl <;> decide
  · by_cases nothing : more = 0
    · exact .inl nothing
    · exact .inr ⟨reported, fun grouped => (below grouped).resolve_left nothing⟩

/-! ### Scopes inside of scopes -/

/-- What an inner scope leaves over is left over in the outer one, too. -/
theorem Expects.lower (expects : Expects scope base extra before) (filled : base ≠ [])
    (reaches : Reaches (scope.since before) (List.replicate extra .rightParen ++ base) after) :
    Reaches scope base after := by
  obtain ⟨more, inner⟩ := reaches
  have reported := expects.reported
  have later : before.diagnostics.length ≤ after.diagnostics.length := inner.reported
  refine ⟨more + extra, ?_, ?_, ?_, ?_⟩
  · rw [List.replicate_add, List.append_assoc]
    exact inner.stands
  · exact fun _ => inner.inside (replicate_append_ne_nil extra filled)
  · omega
  -- What the inner scope leaves over was reported there, and the rest before it.
  · rcases inner.excused with rfl | ⟨fresh, below⟩
    · refine expects.excused.imp (by omega) fun excused => ⟨by omega, excused.2⟩
    · have more : before.diagnostics.length < after.diagnostics.length := fresh
      exact .inr ⟨by omega, fun grouped => by simpa using below grouped⟩

end Places

end Solfege.Reading
