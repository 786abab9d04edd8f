import Solfege.Proofs.Conservation.Expression
import Solfege.Proofs.Reading.Statement

/-!
Contract: statements consist of the tokens that they were read from.

Owns:
- the proof, for each step of the grammar of statements but for tracks, that its result
  consists of the ingredients among the tokens that it read;
- the tokens of a statement that opens a track, and how they title it.

Does not own: what a score makes of a statement.
-/

namespace Solfege.Reading

open Expression (ingredientsOfAll)

/-- What a statement consists of that opens no track. -/
def Statement.ingredients : Statement → List Ingredient
  | .metadata entry _ => [.quoted entry.text true]
  | .track _ => []
  | .definition added => added.ingredients
  | .movement added => added.ingredients

section Parts

variable {before : Reading}

/-! ### Metadata -/

theorem conserves_metadataStatement {entry : String → Metadata}
    (keeps : ∀ text, (entry text).text = text) (here : before.current.kind.isPlain = true) :
    Conserves [] (metadataStatement entry) before Statement.ingredients := by
  refine advance_plain here (idle_skipSpace.bind fun _ _ => (idle_expect rfl _).bind fun _ _ =>
    idle_skipSpace.bind fun _ _ => expect_conserves fun isString => ?_)
  rw [Token.ingredient?_of_string isString]
  refine stringValue_conserves fun terminated => conserves_pure ?_
  rw [terminated, Statement.ingredients, keeps]
  rfl

theorem conserves_optionalString :
    Conserves [] optionalString before fun text => text.toList.map (.quoted · true) := by
  refine check_conserves .string (fun isString => ?_) (conserves_pure rfl)
  apply advance_conserves
  rw [Token.ingredient?_of_string isString]
  refine stringValue_conserves fun terminated => idle_skipSpace.bind fun _ _ => conserves_pure ?_
  rw [terminated]
  rfl

/-! ### Macros -/

theorem conserves_behindParameters {further : List String → Step (List String)}
    (conserves : ∀ parameters behind,
      Conserves (parameters.map .word) (further parameters) behind (·.map .word))
    (parameters : List String) :
    Conserves (parameters.map .word) (behindParameters further parameters) before
      (·.map .word) := by
  refine idle_skipSpace.bind fun _ _ => check_conserves .comma (fun comma => ?_) ?_
  · exact advance_plain (by rw [comma]; rfl) (idle_skipSpace.bind fun _ _ =>
      check_conserves .rightParen (fun _ => peek_conserves (conserves_refuse _))
        (conserves parameters _))
  · exact (idle_expect rfl _).bind fun _ _ => conserves_pure rfl

theorem conserves_parametersFrom (bound : Nat) (found : List String) :
    Conserves (found.map .word) (parametersFrom bound found) before (·.map .word) := by
  induction bound generalizing found before with
  | zero => exact conserves_abort _
  | succ bound inductionHypothesis =>
      rw [parametersFrom_eq]
      have rest (parameters : List String) (behind : Reading) : Conserves (parameters.map .word)
          (behindParameters (parametersFrom bound) parameters) behind (·.map .word) :=
        conserves_behindParameters (fun _ _ => inductionHypothesis _) parameters
      refine idle_skipSpace.bind fun _ spaced => expect_conserves fun isWord => ?_
      rw [Token.ingredient?_of_word isWord]
      by_cases repeated : found.contains spaced.current.text = true
      · simp only [if_pos repeated]
        exact .of_loud (loud_report _ (Conserves.steady (rest found)))
      · simp only [if_neg repeated]
        have more := rest (found ++ [spaced.current.text])
        rw [List.map_append] at more
        exact more _

theorem conserves_parameterList (here : before.current.kind = .leftParen) :
    Conserves [] parameterList before (·.map .word) :=
  advance_plain (by rw [here]; rfl) (idle_skipSpace.bind fun _ _ => check_conserves .rightParen
    (fun closing => advance_plain (by rw [closing]; rfl) (conserves_pure rfl))
    (conserves_parametersFrom _ []))

theorem conserves_behindHead (name : Token) (parameters : List String) :
    Conserves (.word name.text :: parameters.map .word) (behindHead name parameters) before
      Macro.ingredients :=
  idle_skipSpace.bind fun _ _ => (idle_expect rfl _).bind fun _ _ =>
    conserves_body.bind fun _ _ => conserves_pure rfl

theorem conserves_macroFrom (name : Token) :
    Conserves [.word name.text] (macroFrom name) before Macro.ingredients := by
  rw [macroFrom_eq]
  exact check_conserves .leftParen
    (fun here => (conserves_parameterList here).bind fun _ _ => conserves_behindHead name _)
    (conserves_behindHead name [])

/-! ### Movements -/

theorem conserves_movementFrom (instrument : Token) :
    Conserves [.word instrument.text] (movementFrom instrument) before Movement.ingredients := by
  refine conserves_optionalString.bind fun tag _ => (idle_expect rfl _).bind fun _ _ =>
    conserves_body.bind fun expressions _ => conserves_pure ?_
  unfold Movement.ingredients
  simp

theorem conserves_definitionStatement (here : before.current.kind = .word) :
    Conserves [] definitionStatement before Statement.ingredients := by
  rw [definitionStatement_eq]
  apply advance_conserves
  rw [Token.ingredient?_of_word here]
  refine idle_skipSpace.bind fun _ _ => peek_conserves ?_
  refine .ite ?_ (.ite ?_ (conserves_unexpected _))
  · exact (conserves_within .definition fun _ => conserves_macroFrom _).bind_owed fun _ _ =>
      conserves_pure rfl
  · exact (conserves_within .movement fun _ => conserves_movementFrom _).bind_owed fun _ _ =>
      conserves_pure rfl

/-! ### Statements -/

/-- A statement that opens no track consists of the tokens that it was read from. -/
theorem conserves_statement (opensNone : before.current.kind ≠ .track) :
    Conserves [] statement before Statement.ingredients := by
  refine peek_conserves ?_
  split
  · exact conserves_metadataStatement (fun _ => rfl) (by simp [*]; rfl)
  · exact conserves_metadataStatement (fun _ => rfl) (by simp [*]; rfl)
  · contradiction
  · exact conserves_definitionStatement ‹_›
  · exact conserves_unexpected _

theorem idle_statementEnd (read : Statement) : Idle (statementEnd read) before := by
  unfold statementEnd
  split
  · exact idle_skipSpace.bind fun _ _ => peek_conserves
      (.ite (conserves_pure rfl) (conserves_unexpected _))
  · exact conserves_pure rfl

end Parts

/-! ### No other statement opens a track -/

theorem sign_track_not_mem_own (node : Expression) : .sign .track ∉ node.own := by
  cases node with
  | chord members token =>
      rintro member
      obtain ⟨chordMember, _, same⟩ := List.mem_map.mp member
      cases chordMember <;> contradiction
  | directive setting token => cases setting <;> simp [Expression.own, Expression.sign?]
  | _ => simp [Expression.own, Expression.sign?]

theorem sign_track_not_mem_ingredientsOfAll (list : List Expression) :
    .sign .track ∉ ingredientsOfAll list := by
  intro member
  obtain ⟨node, _, inNode⟩ := List.mem_flatMap.mp member
  exact sign_track_not_mem_own node inNode

theorem Statement.sign_track_not_mem_ingredients (read : Statement) :
    .sign .track ∉ read.ingredients := by
  have body := sign_track_not_mem_ingredientsOfAll
  cases read with
  | metadata entry keyword => simp [ingredients]
  | track name => exact List.not_mem_nil
  | definition added => simp [ingredients, Macro.ingredients, body]
  | movement added => simp [ingredients, Movement.ingredients, body]

/-! ### Tracks -/

section Tracks

variable {before after : Reading}

theorem ingredients_of_isSpace {blanks : List Token}
    (blank : ∀ token ∈ blanks, isSpace token.kind = true) : Token.ingredients blanks = [] :=
  Token.ingredients_of_isPlain fun token member => isPlain_of_isSpace _ (blank token member)

/-- In front of a colon, what an optional string makes is how the tokens title a track. -/
theorem optionalString_of_ok (closed : before.Closed) {title : Option String}
    (result : optionalString before = .ok title after) :
    ∃ taken, before.rest = taken ++ after.rest ∧ after.last = before.last ∧
      Token.ingredients taken = title.toList.map (.quoted · true) ∧
      ∀ colon more, colon.kind = .colon → Token.title? (taken ++ colon :: more) = title := by
  rw [optionalString, check_then] at result
  by_cases isString : before.current.kind = .string
  · rw [if_pos isString] at result
    obtain ⟨string, _, advanced, result⟩ := exists_of_bind_eq_ok result
    obtain ⟨rfl, rfl⟩ := advance_of_ok advanced
    obtain ⟨text, _, value, result⟩ := exists_of_bind_eq_ok result
    obtain ⟨terminated, rfl, rfl⟩ := stringValue_of_ok value
    cases result
    have rest := rest_eq_cons_advanced closed (by rw [isString]; decide)
    obtain ⟨blanks, behind, blank⟩ := exists_skipped isSpace before.advanced
    refine ⟨before.current :: blanks, ?_, rfl, ?_, ?_⟩
    · rw [rest, behind]
      rfl
    · rw [Token.ingredients_cons, Token.ingredient?_of_string isString, terminated,
        ingredients_of_isSpace blank]
      rfl
    · exact fun colon more _ => Token.title?_of_string isString _
  · rw [if_neg isString] at result
    cases result
    exact ⟨[], rfl, rfl, rfl, fun colon more isColon => Token.title?_of_colon isColon more⟩

/-- A track keyword, blanks, a string that may be missing, and a colon open a track. -/
theorem opening_of_colon {track colon : Token} {blanks string : List Token}
    {title : Option String} (isTrack : track.kind = .track) (isColon : colon.kind = .colon)
    (blank : ∀ token ∈ blanks, isSpace token.kind = true)
    (same : Token.ingredients string = title.toList.map (.quoted · true))
    (titled : ∀ more, Token.title? (string ++ colon :: more) = title) :
    Token.ingredients (track :: (blanks ++ (string ++ [colon]))) = Ingredient.opening title ∧
      ∀ more, Token.titles (track :: (blanks ++ (string ++ [colon])) ++ more) =
        title :: Token.titles more := by
  have plain : colon.ingredient? = none := Token.ingredient?_of_isPlain (by rw [isColon]; rfl)
  have behind : Token.ingredients (blanks ++ (string ++ [colon])) =
      title.toList.map (.quoted · true) := by
    rw [Token.ingredients_append, Token.ingredients_append, ingredients_of_isSpace blank, same,
      Token.ingredients_cons, plain]
    simp
  have none : ∀ token ∈ blanks ++ (string ++ [colon]), token.kind ≠ .track := by
    apply Token.ne_track_of_ingredients
    rw [behind]
    simp
  constructor
  · rw [Token.ingredients_cons, Token.ingredient?_of_sign isTrack (by decide), behind]
    rfl
  · intro more
    rw [List.cons_append, Token.titles_cons_of_track isTrack, Token.titles_append_of_ne none]
    congr 1
    rw [List.append_assoc, Token.title?_append_of_isSpace blank, List.append_assoc]
    exact titled more

/-- A statement that opens a track takes the tokens that title it, and its name is the title
if there is one. -/
theorem trackStatement_of_ok (closed : before.Closed) (isTrack : before.current.kind = .track)
    {read : Statement} (result : trackStatement before = .ok read after) :
    ∃ title taken, read = .track (title.getD unnamedTrack) ∧
      before.rest = taken ++ after.rest ∧ after.last = before.last ∧
      Token.ingredients taken = Ingredient.opening title ∧
      ∀ more, Token.titles (taken ++ more) = title :: Token.titles more := by
  obtain ⟨_, _, advanced, result⟩ := exists_of_bind_eq_ok result
  obtain ⟨rfl, rfl⟩ := advance_of_ok advanced
  obtain ⟨_, _, skipped, result⟩ := exists_of_bind_eq_ok result
  cases skipped
  obtain ⟨title, titled, named, result⟩ := exists_of_bind_eq_ok result
  obtain ⟨_, _, expected, result⟩ := exists_of_bind_eq_ok result
  cases result
  obtain ⟨isColon, rfl⟩ := expect_of_ok expected
  have closedSkipped : (before.advanced.skip isSpace).Closed := closed
  obtain ⟨string, front, last, same, titles⟩ := optionalString_of_ok closedSkipped named
  have closedTitled : titled.Closed := closed.of_last last
  have rest := rest_eq_cons_advanced closed (by rw [isTrack]; decide)
  have colon := rest_eq_cons_advanced closedTitled (by rw [isColon]; decide)
  obtain ⟨blanks, behind, blank⟩ := exists_skipped isSpace before.advanced
  obtain ⟨made, apart⟩ := opening_of_colon isTrack isColon blank same fun more =>
    titles _ more isColon
  refine ⟨title, before.current :: (blanks ++ (string ++ [titled.current])), rfl, ?_, last, made,
    apart⟩
  rw [rest, behind, front, colon]
  simp

end Tracks

end Solfege.Reading
