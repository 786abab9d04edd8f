import Solfege.Proofs.Blanks.Expression
import Solfege.Proofs.Conservation.Score
import Mathlib.Data.List.Induction

/-!
Contract: scores are the same when blanks in groups are exchanged.

Owns:
- the proof, for each step of the grammar of statements, that it is mirrored;
- blanks that stand in a group, and the blanks behind the opening parenthesis of a hold;
- the proof that any other blank in a group may be a space or a newline, and a blank behind
  the parenthesis of a hold may not.

Does not own: expressions.

Statements stand outside of groups, where no blank is exchanged. So all that their steps have
to do is to come back to such a place.
-/

namespace Solfege

namespace Reading

section Statements

variable {before : Reading}

/-! ### Metadata and tracks -/

/-- Outside of groups nothing depends on a name in front. -/
theorem advance_word {α : Type} {next : Token → Step α}
    (here : before.current.kind = .word)
    (onward : Mirrored 0 (next before.current) before.advanced) :
    Mirrored 0 (advance >>= next) before := by
  refine advance_mirrors (by rw [here]; rfl) (fun place beginning => ?_) onward
  rw [here] at beginning ⊢
  exact ⟨beginning.1, fun inside => absurd rfl inside⟩

theorem mirrored_metadataStatement (entry : String → Metadata)
    (keeps : keepsPlace before.current.kind = true) :
    Mirrored 0 (metadataStatement entry) before :=
  advance_ready keeps (mirrors_skipSpace.bind fun _ _ =>
    (mirrors_expect_ready rfl _).bind fun _ _ => mirrors_skipSpace.bind fun _ _ =>
      (mirrors_expect_ready rfl _).bind fun _ _ => (mirrors_stringValue _).bind fun _ _ =>
        mirrors_pure fun _ => id)

theorem mirrored_optionalString : Mirrored 0 optionalString before :=
  check_mirrors .string rfl (fun here => advance_ready (by rw [here]; rfl)
    ((mirrors_stringValue _).bind fun _ _ => mirrors_skipSpace.bind fun _ _ =>
      mirrors_pure fun _ => id)) fun _ => mirrors_pure fun _ => id

theorem mirrored_trackStatement (here : before.current.kind = .track) :
    Mirrored 0 trackStatement before :=
  advance_ready (by rw [here]; rfl) (mirrors_skipSpace.bind fun _ _ =>
    mirrored_optionalString.bind fun _ _ => (mirrors_expect_ready rfl _).bind fun _ _ =>
      mirrors_pure fun _ => id)

/-! ### Macros -/

theorem mirrored_behindParameters {further : List String → Step (List String)}
    (mirrored : ∀ parameters behind, Mirrored 0 (further parameters) behind)
    (parameters : List String) : Mirrored 0 (behindParameters further parameters) before := by
  refine mirrors_skipSpace.bind fun _ _ => check_mirrors .comma rfl (fun comma => ?_)
    fun _ => (mirrors_expect_ready rfl _).bind fun _ _ => mirrors_pure fun _ => id
  exact advance_ready (by rw [comma]; rfl) (mirrors_skipSpace.bind fun _ _ =>
    check_mirrors .rightParen rfl (fun _ => peek_mirrors fun _ _ => mirrors_refuse _)
      fun _ => mirrored parameters _)

theorem mirrored_parametersFrom (bound : Nat) (found : List String) :
    Mirrored 0 (parametersFrom bound found) before := by
  induction bound generalizing found before with
  | zero => exact mirrors_abort _
  | succ bound inductionHypothesis =>
      rw [parametersFrom_eq]
      have word (expected : Expectation) (reading : Reading) :
          Mirrored 0 (expect .word expected) reading :=
        mirrors_expect rfl expected fun place _ beginning =>
          ⟨beginning.1, fun inside => absurd rfl inside⟩
      have rest (parameters : List String) (behind : Reading) :
          Mirrored 0 (behindParameters (parametersFrom bound) parameters) behind :=
        mirrored_behindParameters (fun _ _ => inductionHypothesis _) parameters
      refine mirrors_skipSpace.bind fun _ _ => (word _ _).bind fun written behind => ?_
      by_cases repeated : found.contains written.text = true
      · simp only [if_pos repeated]
        exact .of_loud (loud_report _ (Mirrors.steady (rest found)))
      · simp only [if_neg repeated]
        exact rest _ behind

theorem mirrored_parameterList (here : before.current.kind = .leftParen) :
    Mirrored 0 parameterList before :=
  advance_ready (by rw [here]; rfl) (mirrors_skipSpace.bind fun _ _ =>
    check_mirrors .rightParen rfl
      (fun closing => advance_ready (by rw [closing]; rfl) (mirrors_pure fun _ => id))
      fun _ => .at_length fun bound => mirrored_parametersFrom bound [])

theorem mirrored_behindHead (name : Token) (parameters : List String) :
    Mirrored 0 (behindHead name parameters) before :=
  mirrors_skipSpace.bind fun _ _ => (mirrors_expect_ready rfl _).bind fun _ _ =>
    mirrored_body.bind fun _ _ => mirrors_pure fun _ => id

theorem mirrored_macroFrom (name : Token) : Mirrored 0 (macroFrom name) before := by
  rw [macroFrom_eq]
  exact check_mirrors .leftParen rfl
    (fun here => (mirrored_parameterList here).bind fun _ _ => mirrored_behindHead name _)
    fun _ => mirrored_behindHead name []

/-! ### Movements -/

theorem mirrored_movementFrom (instrument : Token) :
    Mirrored 0 (movementFrom instrument) before :=
  mirrored_optionalString.bind fun _ _ => (mirrors_expect_ready rfl _).bind fun _ _ =>
    mirrored_body.bind fun _ _ => mirrors_pure fun _ => id

theorem mirrored_definitionStatement (here : before.current.kind = .word) :
    Mirrored 0 definitionStatement before := by
  rw [definitionStatement_eq]
  refine advance_word here (mirrors_skipSpace.bind fun _ behind =>
    peek_mirrors_or_stops (fun blank => ?_) fun _ => ?_)
  · rcases isWhitespace_cases blank with kind | kind <;> rw [kind] <;> exact ⟨_, rfl⟩
  refine .ite (fun _ => ?_) fun _ => .ite (fun _ => ?_) fun _ => mirrors_unexpected _
  · exact (mirrors_within .definition fun _ => mirrored_macroFrom _).bind fun _ _ =>
      mirrors_pure fun _ => id
  · exact (mirrors_within .movement fun _ => mirrored_movementFrom _).bind fun _ _ =>
      mirrors_pure fun _ => id

/-! ### Sequences of statements -/

theorem mirrored_statement : Mirrored 0 statement before := by
  refine peek_mirrors_or_stops (fun blank => ?_) fun _ => ?_
  · rcases isWhitespace_cases blank with kind | kind <;> rw [kind] <;> exact ⟨_, rfl⟩
  split
  · exact mirrored_metadataStatement .title (by simp [*]; rfl)
  · exact mirrored_metadataStatement .copyRight (by simp [*]; rfl)
  · exact mirrored_trackStatement ‹_›
  · exact mirrored_definitionStatement ‹_›
  · exact mirrors_unexpected _

theorem mirrored_statementEnd (read : Statement) : Mirrored 0 (statementEnd read) before := by
  unfold statementEnd
  split
  · refine mirrors_skipSpace.bind fun _ _ =>
      peek_mirrors_inGroups (fun _ _ => Beginning.inGroups) fun token _ outside => ?_
    rw [← outside rfl]
    exact .ite (fun _ => mirrors_pure fun _ => id) fun _ => mirrors_unexpected _
  · exact mirrors_pure fun _ => id

theorem mirrored_addStatement (score : Score) (read : Statement) :
    Mirrored 0 (addStatement score read) before := by
  rcases addStatement_eq score read with ⟨diagnostic, reports⟩ | ⟨adds, _⟩
  · rw [reports]
    exact .of_loud (loud_report _ (accounts_pure (Nat.le_refl 0)))
  · rw [adds]
    exact mirrors_pure fun _ => id

theorem mirrored_readStatement (score : Score) : Mirrored 0 (readStatement score) before :=
  attempt_mirrors mirrored_statement
    (fun read _ => (mirrored_addStatement score read).bind fun extended _ =>
      attempt_mirrors (mirrored_statementEnd read) (fun _ _ => mirrors_pure fun _ => id)
        fun diagnostic => loud_skipStatement diagnostic extended)
    fun diagnostic => loud_skipStatement diagnostic score

theorem neutral_separatesStatements : Neutral separatesStatements := ⟨rfl, rfl, rfl, rfl, rfl⟩

theorem mirrored_statementsFrom (bound : Nat) (score : Score) :
    Mirrored 0 (statementsFrom bound score) before := by
  induction bound generalizing score before with
  | zero => exact mirrors_abort _
  | succ bound inductionHypothesis =>
      refine (mirrors_skipping_neutral neutral_separatesStatements).bind fun _ _ =>
        check_mirrors .endOfFile rfl (fun _ => mirrors_pure fun _ => id) fun _ => ?_
      exact (mirrored_readStatement score).bind fun extended _ => inductionHypothesis extended

/-- Whatever the blanks in groups are, the same statements are read. -/
theorem mirrored_statements (score : Score) : Mirrored 0 (statements score) before := by
  refine Mirrors.bind (.at_length fun bound => mirrored_statementsFrom bound score)
    fun filled ended => ?_
  cases contexts : ended.contexts with
  | nil =>
      refine .of_results (fun value after result => ?_) fun halt after result => ?_
      · simp only [contexts] at result
        cases result
        refine ⟨Nat.le_refl _, fun _ place other beginning twins =>
          ⟨place, other, ?_, beginning, twins⟩⟩
        simp only [twins.contexts, contexts]
      · simp only [contexts] at result
        contradiction
  | cons context outer =>
      refine .of_results (fun value after result => ?_) fun halt after result => ?_
      · simp only [contexts] at result
        contradiction
      · simp only [contexts] at result
        cases result
        exact Nat.le_refl _

end Statements

/-! ### Blanks in groups and in holds -/

/-- Between these tokens and those an opening bracket and its closing one are apart. -/
def InGroup (front behind : List Token) : Prop :=
  ∃ outer opening inside rest closing beyond,
    front = outer ++ opening :: inside ∧ behind = rest ++ closing :: beyond ∧
      opening.kind = .leftBracket ∧ closing.kind = .rightBracket ∧
      Token.Nested Token.squareBrackets (inside ++ rest)

/-- The tokens end in the opening parenthesis of a hold with nothing but blanks behind it. A
parenthesis opens a hold unless it stands directly behind a name. -/
def BehindHold (front : List Token) : Prop :=
  ∃ outer opening blanks, front = outer ++ opening :: blanks ∧ opening.kind = .leftParen ∧
    outer.getLast?.map Token.kind ≠ some .word ∧
    ∀ token ∈ blanks, isWhitespace token.kind = true

namespace Place

theorem behindAll_cons (place : Place) (token : Token) (rest : List Token) :
    place.behindAll (token :: rest) = (place.behind token.kind).behindAll rest := rfl

theorem behindAll_append (place : Place) (front rest : List Token) :
    place.behindAll (front ++ rest) = (place.behindAll front).behindAll rest :=
  List.foldl_append

/-- Behind tokens in which brackets nest as many groups are open as in front of them, and at no
place between are there fewer. -/
theorem groups_of_nested {tokens : List Token}
    (nested : Token.Nested Token.squareBrackets tokens) (place : Place) :
    (place.behindAll tokens).groups = place.groups ∧
      ∀ front, front <+: tokens → place.groups ≤ (place.behindAll front).groups := by
  induction nested generalizing place with
  | nil =>
      refine ⟨rfl, fun front isPrefix => ?_⟩
      rw [List.prefix_nil.mp isPrefix]
      exact Nat.le_refl _
  | @plain token rest neither _ inductionHypothesis =>
      have noBracket := neither (.leftBracket, .rightBracket) (List.mem_singleton_self _)
      have same : (place.behind token.kind).groups = place.groups := by
        unfold behind groupsBehind
        split <;> simp_all
      obtain ⟨balanced, between⟩ := inductionHypothesis (place.behind token.kind)
      refine ⟨balanced.trans same, fun front isPrefix => ?_⟩
      cases front with
      | nil => exact Nat.le_refl _
      | cons first others =>
          obtain ⟨rfl, within⟩ := List.cons_prefix_cons.mp isPrefix
          exact same.ge.trans (between others within)
  | @enclosed opening closing inside rest pair _ _ within onward =>
      have kinds := Prod.mk.inj (List.mem_singleton.mp pair)
      have opens : (place.behind opening.kind).groups = place.groups + 1 := by
        rw [kinds.1]
        rfl
      obtain ⟨balanced, between⟩ := within (place.behind opening.kind)
      have closes : (((place.behind opening.kind).behindAll inside).behind
          closing.kind).groups = place.groups := by
        rw [kinds.2]
        exact congrArg (· - 1) (balanced.trans opens)
      obtain ⟨balancedOnward, betweenOnward⟩ :=
        onward (((place.behind opening.kind).behindAll inside).behind closing.kind)
      rw [closes] at balancedOnward betweenOnward
      refine ⟨?_, fun front isPrefix => ?_⟩
      · rw [behindAll_cons, behindAll_append, behindAll_cons]
        exact balancedOnward
      · cases front with
        | nil => exact Nat.le_refl _
        | cons first others =>
            obtain ⟨rfl, onward⟩ := List.cons_prefix_cons.mp isPrefix
            rw [behindAll_cons]
            rcases List.prefix_or_prefix_of_prefix onward
              (List.prefix_append inside (closing :: rest)) with shorter | ⟨more, rfl⟩
            · exact Nat.le_trans (by omega) (between others shorter)
            · rw [List.prefix_append_right_inj] at onward
              rw [behindAll_append]
              cases more with
              | nil => exact Nat.le_trans (by omega) balanced.ge
              | cons second more =>
                  obtain ⟨rfl, beyond⟩ := List.cons_prefix_cons.mp onward
                  exact betweenOnward more beyond

/-- What stands in front of a token is told by the tokens before it. -/
theorem front_behindAll (tokens : List Token) (groups : Nat) :
    (((⟨groups, .other⟩ : Place).behindAll tokens).front = .name ↔
        tokens.getLast?.map Token.kind = some .word) ∧
      (((⟨groups, .other⟩ : Place).behindAll tokens).front = .hold → BehindHold tokens) := by
  induction tokens using List.reverseRecOn with
  | nil => exact ⟨⟨fun impossible => by contradiction, fun impossible => by contradiction⟩,
      fun impossible => by contradiction⟩
  | append_singleton front token inductionHypothesis =>
      obtain ⟨name, hold⟩ := inductionHypothesis
      have last : (((⟨groups, .other⟩ : Place).behindAll (front ++ [token])).front) =
          ((⟨groups, .other⟩ : Place).behindAll front).front.behind token.kind := by
        rw [behindAll_append]
        rfl
      rw [last, List.getLast?_concat, Option.map_some, Option.some_inj]
      cases kind : token.kind with
      | word => exact ⟨⟨fun _ => rfl, fun _ => rfl⟩, fun impossible => by contradiction⟩
      | leftParen =>
          by_cases call : ((⟨groups, .other⟩ : Place).behindAll front).front = .name
          · simp [Front.behind, call]
          · refine ⟨by simp [Front.behind, call], fun _ => ?_⟩
            exact ⟨front, token, [], rfl, kind, mt name.mpr call, List.forall_mem_nil _⟩
      | space | newline =>
          by_cases held : ((⟨groups, .other⟩ : Place).behindAll front).front = .hold
          · refine ⟨by simp [Front.behind, held], fun _ => ?_⟩
            obtain ⟨outer, opening, blanks, rfl, opens, noName, blank⟩ := hold held
            refine ⟨outer, opening, blanks ++ [token], by simp, opens, noName, ?_⟩
            exact List.forall_mem_append.mpr
              ⟨blank, List.forall_mem_singleton.mpr (by rw [kind]; rfl)⟩
          · simp [Front.behind, held]
      | _ => simp [Front.behind]

end Place

theorem not_fixed_of_inGroup {front behind : List Token} (inGroup : InGroup front behind)
    (free : ¬ BehindHold front) : ¬ ((⟨0, .other⟩ : Place).behindAll front).Fixed := by
  rintro (outside | hold)
  · obtain ⟨outer, opening, inside, rest, closing, beyond, rfl, _, opens, _, nested⟩ := inGroup
    rw [Place.behindAll_append, Place.behindAll_cons, opens] at outside
    have between := (Place.groups_of_nested nested
      (((⟨0, .other⟩ : Place).behindAll outer).behind .leftBracket)).2 inside
        (List.prefix_append _ _)
    rw [outside] at between
    contradiction
  · exact free ((Place.front_behindAll front 0).2 hold)

/-- Readers of lists of tokens are twins if the lists differ in a blank that may be exchanged. -/
theorem twins_ofTokens {front behind : List Token} {first second : Token}
    (isBlank : isWhitespace first.kind = true) (otherBlank : isWhitespace second.kind = true)
    (free : ¬ ((⟨0, .other⟩ : Place).behindAll front).Fixed) (more : behind ≠ []) :
    Twins ⟨0, .other⟩ (ofTokens (front ++ first :: behind))
      (ofTokens (front ++ second :: behind)) := by
  obtain ⟨back, last, around⟩ := exists_ofTokens_around front more
  rw [around, around]
  exact ⟨.of_blank isBlank otherBlank free back, rfl, rfl, rfl⟩

end Reading

open Reading

/-- What is read from a list of tokens without a problem is read from its twin. -/
theorem Score.ofTokens_of_twins {tokens others : List Token} {trackName : String}
    {score : Score}
    (twins : Twins ⟨0, .other⟩ (Reading.ofTokens tokens) (Reading.ofTokens others))
    (opened : Score.opened tokens trackName = Score.opened others trackName)
    (read : Score.ofTokens tokens trackName = .ok score) (silent : score.diagnostics = []) :
    Score.ofTokens others trackName = .ok score := by
  obtain ⟨standing, after, result, _⟩ := exists_statements_eq_ok
    (Score.opened tokens trackName) (closed_ofTokens tokens) (contexts_ofTokens tokens)
  rw [Score.ofTokens_of_ok result] at read
  obtain rfl := Except.ok.inj read
  have beginning : Beginning 0 ⟨0, .other⟩ (Reading.ofTokens tokens).current.kind :=
    ⟨rfl, fun inside => absurd rfl inside⟩
  obtain ⟨there, otherAfter, same, _, still⟩ :=
    ((mirrored_statements _).of_ok result).2 silent _ _ beginning twins
  rw [opened] at same
  rw [Score.ofTokens_of_ok same, still.diagnostics, opened]

theorem Score.opened_exchange {front behind : List Token} {first second : Token}
    (isBlank : isWhitespace first.kind = true) (otherBlank : isWhitespace second.kind = true)
    (trackName : String) :
    Score.opened (front ++ first :: behind) trackName =
      Score.opened (front ++ second :: behind) trackName := by
  have noTrack : ∀ token : Token, isWhitespace token.kind = true →
      decide (token.kind = .track) = false := by
    intro token blank
    rcases isWhitespace_cases blank with kind | kind <;> rw [kind] <;> rfl
  simp [Score.opened, noTrack _ isBlank, noTrack _ otherBlank]

/-! ### A group on two lines -/

namespace TwoLines

def token (kind : Token.Kind) (text : String) : Token := ⟨text, kind, .start⟩

/-- The tokens `piano: [`. -/
def opening : List Token :=
  [token .word "piano", token .colon ":", token .space " ", token .leftBracket "["]

/-- The tokens `piano: [do`. -/
def front : List Token := opening ++ [token (.note .ut) "do"]

/-- The tokens `re]`. -/
def behind : List Token := [token (.note .re) "re", token .rightBracket "]"]

/-- The tokens `piano: [(`. -/
def hold : List Token := opening ++ [token .leftParen "("]

def space : Token := token .space " "

def newline : Token := token .newline "\n"

theorem inGroup : InGroup front behind :=
  ⟨opening.dropLast, _, [token (.note .ut) "do"], [token (.note .re) "re"], _, [], rfl, rfl, rfl,
    rfl, .plain (by decide) (.plain (by decide) .nil)⟩

theorem not_behindHold : ¬ BehindHold front := by
  rintro ⟨outer, paren, blanks, same, opens, _⟩
  have noParen : ∀ token ∈ front, token.kind ≠ .leftParen := by decide
  exact noParen paren (by rw [same]; simp) opens

/-- In a hold, a blank stands in the group around the hold. -/
theorem inGroup_hold : InGroup hold behind :=
  ⟨opening.dropLast, _, [token .leftParen "("], [token (.note .re) "re"], _, [], rfl, rfl, rfl,
    rfl, .plain (by decide) (.plain (by decide) .nil)⟩

end TwoLines

/-! ### Main result -/

/-- **Spaces and newlines are alike in groups.** Exchange a blank between an opening square
bracket and its closing one for another blank, be it a space or a newline, unless it is one of
the blanks behind the opening parenthesis of a hold. Then a problem is found as before or none
as before, and where none is found the score is the same. -/
theorem Score.ofTokens_exchange_blank {front behind : List Token} {blank other : Token}
    (isBlank : isWhitespace blank.kind = true) (otherBlank : isWhitespace other.kind = true)
    (inGroup : InGroup front behind) (free : ¬ BehindHold front) (trackName : String) :
    ∃ first second,
      Score.ofTokens (front ++ blank :: behind) trackName = .ok first ∧
        Score.ofTokens (front ++ other :: behind) trackName = .ok second ∧
        (first.diagnostics = [] ↔ second.diagnostics = []) ∧
        (first.diagnostics = [] → first = second) := by
  have more : behind ≠ [] := by
    obtain ⟨_, _, _, rest, closing, beyond, _, rfl, _⟩ := inGroup
    simp
  have exchangeable := not_fixed_of_inGroup inGroup free
  obtain ⟨standing, after, result, _⟩ := exists_statements_eq_ok
    (opened (front ++ blank :: behind) trackName) (closed_ofTokens _) (contexts_ofTokens _)
  obtain ⟨otherStanding, otherAfter, otherResult, _⟩ := exists_statements_eq_ok
    (opened (front ++ other :: behind) trackName) (closed_ofTokens _) (contexts_ofTokens _)
  have read := ofTokens_of_ok result
  have otherRead := ofTokens_of_ok otherResult
  have onward := ofTokens_of_twins (twins_ofTokens isBlank otherBlank exchangeable more)
    (opened_exchange isBlank otherBlank trackName) read
  have backward := ofTokens_of_twins (twins_ofTokens otherBlank isBlank exchangeable more)
    (opened_exchange otherBlank isBlank trackName) otherRead
  have same {first second : Score} (both : (.ok first : Except Diagnostic Score) = .ok second) :
      first = second := Except.ok.inj both
  refine ⟨_, _, read, otherRead, ⟨fun silent => ?_, fun silent => ?_⟩, fun silent => ?_⟩
  · rw [← same ((onward silent).symm.trans otherRead)]
    exact silent
  · rw [← same ((backward silent).symm.trans read)]
    exact silent
  · exact same ((onward silent).symm.trans otherRead)

/-- The group of `piano: [do re]` may be written on two lines. -/
theorem Score.ofTokens_exchange_blank_two_lines :
    ∃ score, Score.ofTokens (TwoLines.front ++ TwoLines.space :: TwoLines.behind) "global" =
        .ok score ∧
      Score.ofTokens (TwoLines.front ++ TwoLines.newline :: TwoLines.behind) "global" =
        .ok score ∧ score.diagnostics = [] := by
  obtain ⟨first, second, read, otherRead, _, same⟩ :=
    Score.ofTokens_exchange_blank (show isWhitespace TwoLines.space.kind = true from rfl)
      (show isWhitespace TwoLines.newline.kind = true from rfl) TwoLines.inGroup
      TwoLines.not_behindHold "global"
  have none : (Score.ofTokens (TwoLines.front ++ TwoLines.space :: TwoLines.behind)
      "global").toOption.map Score.diagnostics = some [] := by
    decide +kernel
  rw [read] at none
  have silent : first.diagnostics = [] := Option.some.inj none
  rw [← same silent] at otherRead
  exact ⟨first, read, otherRead, silent⟩

/-- In `piano: [( do]` the space must not become a newline, though it stands in a group. -/
theorem Score.not_ofTokens_exchange_blank :
    InGroup TwoLines.hold TwoLines.behind ∧
      isWhitespace TwoLines.space.kind = true ∧ isWhitespace TwoLines.newline.kind = true ∧
      (Score.ofTokens (TwoLines.hold ++ TwoLines.space :: TwoLines.behind)
        "global").toOption.map Score.diagnostics = some [] ∧
      (Score.ofTokens (TwoLines.hold ++ TwoLines.newline :: TwoLines.behind)
        "global").toOption.map Score.hasErrors = some true :=
  ⟨TwoLines.inGroup_hold, rfl, rfl, by decide +kernel, by decide +kernel⟩

end Solfege
