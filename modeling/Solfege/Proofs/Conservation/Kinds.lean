import Solfege.Proofs.Conservation.Score
import Solfege.Token.Lexeme
import Mathlib.Data.List.ReduceOption

/-!
Contract: nothing is lost, invented or duplicated by reading.

Owns:
- the ingredients of each kind, among tokens and in the nodes of a score;
- a score as its definitions apart from its nodes;
- the proof that the tokens of a list that is read without problems are, kind by kind, what the
  score consists of.

Does not own: how reading hands the ingredients on.
-/

namespace Solfege

open Token (titles)
open Expression (ingredientsOfAll nodesOfAll)

/-! ### Among tokens -/

namespace Token

theorem syllables_ingredients (tokens : List Token) :
    (ingredients tokens).filterMap Ingredient.syllable? =
      tokens.filterMap (·.kind.syllable?) := by
  unfold ingredients
  rw [List.filterMap_filterMap]
  congr 1
  funext token
  unfold ingredient? Kind.syllable?
  cases token.kind <;> rfl

/-- A part that is there in tokens of one sort only is found by picking these. -/
theorem filterMap_ingredients {α : Type} {part : Ingredient → Option α} {test : Token → Bool}
    {value : Token → α}
    (parts : ∀ token : Token,
      token.ingredient?.bind part = if test token then some (value token) else none)
    (tokens : List Token) :
    (ingredients tokens).filterMap part = (tokens.filter test).map value := by
  unfold ingredients
  rw [List.filterMap_filterMap, funext parts]
  induction tokens with
  | nil => rfl
  | cons token rest inductionHypothesis =>
      rw [List.filterMap_cons, List.filter_cons, inductionHypothesis]
      by_cases passes : test token = true
      · rw [if_pos passes, if_pos passes, List.map_cons]
      · rw [if_neg passes, if_neg passes]

theorem words_ingredients (tokens : List Token) :
    (ingredients tokens).filterMap Ingredient.word? =
      (tokens.filter (·.kind = .word)).map Token.text := by
  refine filterMap_ingredients (fun token => ?_) tokens
  unfold ingredient?
  cases token.kind <;> rfl

theorem quotes_ingredients (tokens : List Token) :
    (ingredients tokens).filterMap Ingredient.quoted? =
      (tokens.filter (·.kind = .string)).map fun token => (token.unquoted, token.isTerminated) := by
  refine filterMap_ingredients (fun token => ?_) tokens
  unfold ingredient?
  cases token.kind <;> rfl

theorem kind_of_sign? {token : Token} {ingredient : Ingredient} {kind : Kind}
    (here : token.ingredient? = some ingredient) (sign : ingredient.sign? = some kind) :
    token.kind = kind := by
  cases ingredient with
  | sign written =>
      cases sign
      unfold ingredient? at here
      split at here
      all_goals cases here
      all_goals rfl
  | _ => cases sign

theorem count_signs_ingredients {kind : Kind}
    (isSign : kind ∈ [.leftBracket, .asterisk, .pipe, .caret, .bang, .track])
    (tokens : List Token) :
    ((ingredients tokens).filterMap Ingredient.sign?).count kind =
      tokens.countP (·.kind = kind) := by
  induction tokens with
  | nil => rfl
  | cons token rest inductionHypothesis =>
      rw [ingredients_cons, List.filterMap_append, List.count_append, inductionHypothesis,
        List.countP_cons, Nat.add_comm]
      congr 1
      by_cases same : token.kind = kind
      · rw [ingredient?_of_sign same isSign]
        simp [same, Ingredient.sign?]
      · rw [decide_eq_false same]
        refine List.count_eq_zero.mpr fun member => same ?_
        obtain ⟨ingredient, here, sign⟩ := List.mem_filterMap.mp member
        exact kind_of_sign? (Option.mem_toList.mp here) sign

end Token

/-! ### In nodes -/

namespace Expression

theorem syllables_own (node : Expression) :
    node.own.filterMap Ingredient.syllable? = node.syllables := by
  cases node with
  | chord members token =>
      rw [own, syllables, List.filterMap_map]
      congr 1
      funext member
      cases member <;> rfl
  | directive setting token => cases setting <;> rfl
  | _ => rfl

theorem words_own (node : Expression) :
    node.own.filterMap Ingredient.word? = node.names := by
  cases node with
  | chord members token =>
      rw [own, names, List.filterMap_map]
      congr 1
      funext member
      cases member <;> rfl
  | directive setting token => cases setting <;> rfl
  | _ => rfl

theorem quotes_own (node : Expression) : node.own.filterMap Ingredient.quoted? = [] := by
  cases node with
  | chord members token =>
      rw [own, List.filterMap_map, List.filterMap_eq_nil_iff]
      intro member _
      cases member <;> rfl
  | directive setting token => cases setting <;> rfl
  | _ => rfl

theorem signs_own (node : Expression) :
    node.own.filterMap Ingredient.sign? = node.sign?.toList := by
  cases node with
  | chord members token =>
      rw [own, List.filterMap_map]
      refine List.filterMap_eq_nil_iff.mpr ?_
      intro member _
      cases member <;> rfl
  | directive setting token => cases setting <;> rfl
  | _ => rfl

end Expression

/-! ### Kind by kind -/

namespace Ingredient

/-- The ingredients of texts, of names, of nodes and of the openings of tracks. -/
def sorted (texts words : List String) (nodes : List Expression)
    (opened : List (Option String)) : List Ingredient :=
  texts.map (quoted · true) ++ words.map word ++ nodes.flatMap Expression.own ++
    opened.flatMap opening

variable (texts words : List String) (nodes : List Expression) (opened : List (Option String))

theorem filterMap_sorted {α : Type} (part : Ingredient → Option α) :
    (sorted texts words nodes opened).filterMap part =
      texts.filterMap (fun text => part (quoted text true)) ++
        words.filterMap (fun written => part (word written)) ++
        nodes.flatMap (fun node => node.own.filterMap part) ++
        opened.flatMap fun title => (opening title).filterMap part := by
  unfold sorted
  simp only [List.filterMap_append, List.filterMap_map, List.filterMap_flatMap]
  rfl

theorem syllables_sorted :
    (sorted texts words nodes opened).filterMap syllable? =
      nodes.flatMap Expression.syllables := by
  have unopened : ∀ title : Option String, (opening title).filterMap syllable? = [] := by
    rintro (_ | title) <;> rfl
  simp [filterMap_sorted, Expression.syllables_own, unopened, syllable?]

theorem words_sorted :
    (sorted texts words nodes opened).filterMap word? =
      words ++ nodes.flatMap Expression.names := by
  have unopened : ∀ title : Option String, (opening title).filterMap word? = [] := by
    rintro (_ | title) <;> rfl
  simp [filterMap_sorted, Expression.words_own, unopened, word?]

theorem quotes_sorted :
    (sorted texts words nodes opened).filterMap quoted? =
      (texts ++ opened.reduceOption).map (·, true) := by
  have titled : ∀ title : Option String,
      (opening title).filterMap quoted? = title.toList.map (·, true) := by
    rintro (_ | title) <;> rfl
  have unquoted : nodes.flatMap (fun node => node.own.filterMap quoted?) = [] :=
    List.flatMap_eq_nil_iff.mpr fun node _ => Expression.quotes_own node
  have strings : opened.reduceOption = opened.flatMap Option.toList :=
    List.filterMap_eq_flatMap_toList id opened
  rw [filterMap_sorted, unquoted, List.append_nil, strings, List.map_append, List.map_flatMap]
  simp [titled, quoted?]

theorem count_signs_sorted {kind : Token.Kind} (other : kind ≠ .track) :
    ((sorted texts words nodes opened).filterMap sign?).count kind =
      nodes.countP (·.sign? = some kind) := by
  have signed : ∀ title : Option String, (opening title).filterMap sign? = [.track] := by
    rintro (_ | title) <;> rfl
  have tracks : (opened.flatMap fun _ => [Token.Kind.track]).count kind = 0 := by
    refine List.count_eq_zero.mpr fun member => ?_
    obtain ⟨_, _, here⟩ := List.mem_flatMap.mp member
    exact other (List.mem_singleton.mp here)
  have nodesSigns : nodes.flatMap (fun node => node.sign?.toList) =
      nodes.filterMap Expression.sign? :=
    (List.filterMap_eq_flatMap_toList _ _).symm
  simp only [filterMap_sorted, Expression.signs_own, signed, nodesSigns, List.count_append, tracks]
  simp only [sign?, List.filterMap_none, List.count_nil, Nat.zero_add, Nat.add_zero,
    List.count_filterMap]
  exact List.countP_congr fun node _ => by simp

end Ingredient

/-! ### In a score -/

namespace Score

theorem macros_perm (macros : List Macro) :
    (macros.flatMap Macro.ingredients).Perm
      ((macros.flatMap fun definition => definition.name :: definition.parameters).map .word ++
        ingredientsOfAll (macros.flatMap Macro.body)) := by
  have parts := List.flatMap_append_perm macros
    (fun definition => (definition.name :: definition.parameters).map Ingredient.word)
    (fun definition => ingredientsOfAll definition.body)
  rw [List.map_flatMap, Expression.ingredientsOfAll_flatMap]
  exact parts.symm

theorem movements_perm (movements : List Movement) :
    (movements.flatMap Movement.ingredients).Perm
      ((movements.map Movement.instrument).map .word ++
        ((movements.filterMap Movement.tag).map (.quoted · true) ++
          ingredientsOfAll (movements.flatMap Movement.expressions))) := by
  have inner := List.flatMap_append_perm movements
    (fun movement => movement.tag.toList.map (Ingredient.quoted · true))
    (fun movement => ingredientsOfAll movement.expressions)
  have outer := List.map_append_flatMap_perm movements
    (fun movement => Ingredient.word movement.instrument)
    (fun movement => movement.tag.toList.map (Ingredient.quoted · true) ++
      ingredientsOfAll movement.expressions)
  rw [List.map_map, List.filterMap_eq_flatMap_toList, List.map_flatMap,
    Expression.ingredientsOfAll_flatMap]
  exact outer.symm.trans (inner.symm.append_left _)

/-- The texts of a score that are not the names of its tracks. -/
def texts (score : Score) : List String :=
  score.metadata.map Metadata.text ++ score.movements.filterMap Movement.tag

/-- The names that the definitions of a score write out, apart from their expressions. -/
def words (score : Score) : List String :=
  score.macros.flatMap (fun definition => definition.name :: definition.parameters) ++
    score.movements.map Movement.instrument

/-- A score consists of its definitions and of its nodes. -/
theorem ingredients_perm (score : Score) :
    score.ingredients.Perm (Ingredient.sorted score.texts score.words score.nodes []) := by
  refine List.perm_iff_count.mpr fun ingredient => ?_
  have macros := List.perm_iff_count.mp (macros_perm score.macros) ingredient
  have movements := List.perm_iff_count.mp (movements_perm score.movements) ingredient
  have metadata : score.metadata.map (fun entry => Ingredient.quoted entry.text true) =
      score.metadata.map ((Ingredient.quoted · true) ∘ Metadata.text) := rfl
  unfold ingredients nodes Ingredient.sorted texts words
  rw [metadata]
  simp only [List.flatMap_append, List.flatMap_nil, List.map_append, List.count_append,
    List.count_nil, List.map_map, ingredientsOfAll] at macros movements ⊢
  omega

/-- Without a problem, the tokens are what a score and the titles of its tracks consist of. -/
theorem perm_sorted {tokens : List Token} {trackName : String} {score : Score}
    (ends : ∀ token ∈ tokens.dropLast, token.kind ≠ .endOfFile)
    (read : ofTokens tokens trackName = .ok score) (silent : score.diagnostics = []) :
    (Token.ingredients tokens).Perm
      (Ingredient.sorted score.texts score.words score.nodes (titles tokens)) := by
  have grown := (grows_ofTokens ends read silent).ingredients
  have nothing : (opened tokens trackName).ingredients = [] := by
    unfold opened
    split <;> rfl
  rw [nothing, List.nil_append] at grown
  have whole := score.ingredients_perm.append_right
    ((titles tokens).flatMap Ingredient.opening)
  rw [Ingredient.sorted, List.flatMap_nil, List.append_nil] at whole
  exact grown.symm.trans whole

/-- Each title is the one of a track, and without titles there is the track that is opened for
the score. -/
theorem names_tracks {tokens : List Token} {trackName : String} {score : Score}
    (grows : (opened tokens trackName).Grows tokens score) :
    score.tracks.map Track.name =
      if tokens.any (·.kind = .track) then
        (titles tokens).map (·.getD Reading.unnamedTrack)
      else
        [trackName] := by
  rw [grows.names]
  unfold opened
  by_cases opens : tokens.any (·.kind = .track) = true
  · rw [if_pos opens, if_pos opens]
    rfl
  · rw [if_neg opens, if_neg opens]
    have none : ∀ token ∈ tokens, token.kind ≠ .track := by
      simpa using opens
    have untitled := Token.titles_append_of_ne none []
    rw [List.append_nil] at untitled
    rw [untitled]
    rfl

/-- **Nothing is lost, invented or duplicated.** Where a list of tokens is read without a problem,
its note keywords are the syllables of the nodes of the score, its words are the names in the
score, and its strings, all of them closed, are the texts of the score and the titles of its
tracks, as often as they occur. A track without a title bears the same name always. Of each
sign that stands for one node there are as many as of such nodes. -/
theorem reading_keeps_tokens {tokens : List Token} {trackName : String} {score : Score}
    (ends : ∀ token ∈ tokens.dropLast, token.kind ≠ .endOfFile)
    (read : ofTokens tokens trackName = .ok score) (silent : score.diagnostics = []) :
    (tokens.filterMap (·.kind.syllable?)).Perm (score.nodes.flatMap Expression.syllables) ∧
      ((tokens.filter (·.kind = .word)).map Token.text).Perm
        (score.words ++ score.nodes.flatMap Expression.names) ∧
      ((tokens.filter (·.kind = .string)).map Token.unquoted).Perm
        (score.texts ++ (titles tokens).reduceOption) ∧
      (∀ token ∈ tokens, token.kind = .string → token.isTerminated = true) ∧
      score.tracks.map Track.name =
        (if tokens.any (·.kind = .track) then
          (titles tokens).map (·.getD Reading.unnamedTrack)
        else
          [trackName]) ∧
      ∀ kind ∈ [Token.Kind.leftBracket, .asterisk, .pipe, .caret, .bang],
        tokens.countP (·.kind = kind) = score.nodes.countP (·.sign? = some kind) := by
  have whole := perm_sorted ends read silent
  have syllables := whole.filterMap Ingredient.syllable?
  have words := whole.filterMap Ingredient.word?
  have quotes := whole.filterMap Ingredient.quoted?
  rw [Token.syllables_ingredients, Ingredient.syllables_sorted] at syllables
  rw [Token.words_ingredients, Ingredient.words_sorted] at words
  rw [Token.quotes_ingredients, Ingredient.quotes_sorted] at quotes
  refine ⟨syllables, words, ?_, ?_, names_tracks (grows_ofTokens ends read silent), ?_⟩
  · have contents := quotes.map Prod.fst
    simpa [List.map_map, Function.comp_def] using contents
  · intro token member isString
    have among : (token.unquoted, token.isTerminated) ∈
        (tokens.filter (·.kind = .string)).map fun token =>
          (token.unquoted, token.isTerminated) :=
      List.mem_map_of_mem (List.mem_filter.mpr ⟨member, decide_eq_true isString⟩)
    obtain ⟨text, _, same⟩ := List.mem_map.mp (quotes.mem_iff.mp among)
    exact (congrArg Prod.snd same).symm
  · intro kind isSign
    have counted := (whole.filterMap Ingredient.sign?).count_eq kind
    rw [Token.count_signs_ingredients, Ingredient.count_signs_sorted] at counted
    · exact counted
    · rintro rfl
      simp at isSign
    · exact List.mem_append_left [.track] isSign

/-- A title, a macro with a chord in a group, a track with a title and one without, and a call
with an argument inside of a hold. -/
theorem reading_keeps_tokens_air :
    ∃ tokens score, (∀ token ∈ tokens.dropLast, token.kind ≠ .endOfFile) ∧
      ofTokens tokens "global" = .ok score ∧ score.diagnostics = [] ∧
      (score.nodes.flatMap Expression.syllables).Perm [.ut, .re, .mi, .si] ∧
      (score.words ++ score.nodes.flatMap Expression.names).Perm
        ["m", "x", "x", "piano", "m", "flute", "m"] ∧
      score.tracks.map Track.name = ["A", "main"] := by
  let tokens := (Token.tokenize ("title: \"Air\"\nm(x) = [do/x]*2\n" ++
    "track \"A\": piano \"left\": m(re) >+mi ^90 !3/4 |\ntrack: flute: (m(si)")).toOption.getD []
  have parts : (∀ token ∈ tokens.dropLast, token.kind ≠ .endOfFile) ∧
      tokens.filterMap (·.kind.syllable?) = [.ut, .re, .mi, .si] ∧
      (tokens.filter (·.kind = .word)).map Token.text =
        ["m", "x", "x", "piano", "m", "flute", "m"] ∧
      (if tokens.any (·.kind = .track) then
        (titles tokens).map (·.getD Reading.unnamedTrack) else ["global"]) = ["A", "main"] ∧
      (ofTokens tokens "global").toOption.map Score.diagnostics = some [] := by
    decide +kernel
  obtain ⟨ends, syllables, words, names, noProblem⟩ := parts
  cases result : ofTokens tokens "global" with
  | error halt =>
      rw [result] at noProblem
      contradiction
  | ok score =>
      rw [result] at noProblem
      have silent : score.diagnostics = [] := Option.some.inj noProblem
      have kept := reading_keeps_tokens ends result silent
      exact ⟨tokens, score, ends, result, silent, syllables ▸ kept.1.symm,
        words ▸ kept.2.1.symm, kept.2.2.2.2.1.trans names⟩

end Score

end Solfege
