import Solfege.Reading.Statement

/-!
Contract: what tokens and scores consist of.

Owns:
- the ingredients that reading hands on from tokens to a score: syllables, words, texts and
  the signs that stand for one node each;
- the nodes of expressions at any depth, and what each node takes from its own tokens;
- the ingredients of expressions, statements and scores;
- the strings with which the tracks in a list of tokens are titled.

Does not own: the proof that reading keeps the ingredients. Numbers, blanks and the signs
that only separate or introduce something are no ingredients.
-/

namespace Solfege

/-- What reading hands on from a token. -/
inductive Ingredient where
  | syllable (name : Syllable)
  | word (written : String)
  /-- The contents of a string, and whether it reached its closing quote. -/
  | quoted (contents : String) (closed : Bool)
  | sign (kind : Token.Kind)
deriving DecidableEq

namespace Ingredient

def syllable? : Ingredient → Option Syllable
  | syllable name => some name
  | _ => none

def word? : Ingredient → Option String
  | word written => some written
  | _ => none

def quoted? : Ingredient → Option (String × Bool)
  | quoted contents closed => some (contents, closed)
  | _ => none

def sign? : Ingredient → Option Token.Kind
  | sign kind => some kind
  | _ => none

end Ingredient

/-! ### Tokens -/

/-- Tokens of the other kinds are ingredients. -/
def Token.Kind.isPlain : Token.Kind → Bool
  | .note _ | .word | .string | .leftBracket | .asterisk | .pipe | .caret | .bang | .track => false
  | _ => true

namespace Token

def ingredient? (token : Token) : Option Ingredient :=
  match token.kind with
  | .note name => some (.syllable name)
  | .word => some (.word token.text)
  | .string => some (.quoted token.unquoted token.isTerminated)
  | .leftBracket | .asterisk | .pipe | .caret | .bang | .track => some (.sign token.kind)
  | _ => none

theorem ingredient?_of_isPlain {token : Token} (plain : token.kind.isPlain = true) :
    token.ingredient? = none := by
  unfold ingredient?
  split
  all_goals first
    | rfl
    | simp_all [Kind.isPlain]

theorem ingredient?_of_note {token : Token} {name : Syllable} (here : token.kind = .note name) :
    token.ingredient? = some (.syllable name) := by
  unfold ingredient?
  rw [here]

theorem ingredient?_of_word {token : Token} (here : token.kind = .word) :
    token.ingredient? = some (.word token.text) := by
  unfold ingredient?
  rw [here]

theorem ingredient?_of_string {token : Token} (here : token.kind = .string) :
    token.ingredient? = some (.quoted token.unquoted token.isTerminated) := by
  unfold ingredient?
  rw [here]

theorem ingredient?_of_sign {token : Token} {kind : Kind} (here : token.kind = kind)
    (isSign : kind ∈ [.leftBracket, .asterisk, .pipe, .caret, .bang, .track]) :
    token.ingredient? = some (.sign kind) := by
  simp only [List.mem_cons, List.not_mem_nil, or_false] at isSign
  unfold ingredient?
  rcases isSign with rfl | rfl | rfl | rfl | rfl | rfl <;> rw [here]

def ingredients (tokens : List Token) : List Ingredient :=
  tokens.filterMap ingredient?

@[simp] theorem ingredients_nil : ingredients [] = [] := rfl

theorem ingredients_cons (token : Token) (rest : List Token) :
    ingredients (token :: rest) = token.ingredient?.toList ++ ingredients rest := by
  unfold ingredients
  rw [List.filterMap_cons]
  cases token.ingredient? <;> rfl

@[simp] theorem ingredients_append (front back : List Token) :
    ingredients (front ++ back) = ingredients front ++ ingredients back :=
  List.filterMap_append

/-- Where no token is an ingredient there is none. -/
theorem ingredients_of_isPlain {tokens : List Token}
    (plain : ∀ token ∈ tokens, token.kind.isPlain = true) : ingredients tokens = [] :=
  List.filterMap_eq_nil_iff.mpr fun token member => ingredient?_of_isPlain (plain token member)

/-- The string behind a track keyword, if the next token that is no blank is one. -/
def title? (behind : List Token) : Option String :=
  match behind.dropWhile fun token => Reading.isSpace token.kind with
  | [] => none
  | next :: _ => if next.kind = .string then some next.unquoted else none

/-- How the tracks are titled that the tokens open, one after the other. -/
def titles : List Token → List (Option String)
  | [] => []
  | token :: rest => if token.kind = .track then title? rest :: titles rest else titles rest

theorem title?_append_of_isSpace {blanks : List Token}
    (blank : ∀ token ∈ blanks, Reading.isSpace token.kind = true) (more : List Token) :
    title? (blanks ++ more) = title? more := by
  unfold title?
  rw [List.dropWhile_append_of_pos blank]

theorem title?_of_string {token : Token} (isString : token.kind = .string) (more : List Token) :
    title? (token :: more) = some token.unquoted := by
  unfold title?
  rw [List.dropWhile_cons_of_neg (by rw [isString]; decide)]
  exact if_pos isString

theorem title?_of_colon {token : Token} (isColon : token.kind = .colon) (more : List Token) :
    title? (token :: more) = none := by
  unfold title?
  rw [List.dropWhile_cons_of_neg (by rw [isColon]; decide)]
  exact if_neg (by rw [isColon]; decide)

theorem titles_cons_of_track {token : Token} (isTrack : token.kind = .track)
    (rest : List Token) : titles (token :: rest) = title? rest :: titles rest := by
  rw [titles, if_pos isTrack]

/-- Tokens among which there is no track keyword make no difference in front of others. -/
theorem titles_append_of_ne {front : List Token} (none : ∀ token ∈ front, token.kind ≠ .track)
    (more : List Token) : titles (front ++ more) = titles more := by
  induction front with
  | nil => rfl
  | cons token rest inductionHypothesis =>
      obtain ⟨here, others⟩ := List.forall_mem_cons.mp none
      rw [List.cons_append, titles, if_neg here]
      exact inductionHypothesis others

theorem ne_track_of_ingredients {tokens : List Token}
    (none : .sign .track ∉ ingredients tokens) : ∀ token ∈ tokens, token.kind ≠ .track := by
  intro token member isTrack
  apply none
  exact List.mem_filterMap.mpr ⟨token, member, ingredient?_of_sign isTrack (by decide)⟩

end Token

/-! ### Expressions -/

def ChordMember.ingredient : ChordMember → Ingredient
  | .note written => .syllable written.name
  | .reference name _ => .word name

namespace Expression

mutual

/-- The expression and all expressions in it, at any depth, in reading order. -/
def nodes : Expression → List Expression
  | .call name arguments token => .call name arguments token :: nodesOfAll arguments
  | .group items token => .group items token :: nodesOfAll items
  | .hold inner token => .hold inner token :: nodes inner
  | other => [other]

def nodesOfAll : List Expression → List Expression
  | [] => []
  | item :: rest => nodes item ++ nodesOfAll rest

end

/-- The syllables of a note, of the notes in a chord, or of a change of tone. -/
def syllables : Expression → List Syllable
  | .note written => [written.name]
  | .chord members _ =>
      members.filterMap fun
        | .note written => some written.name
        | .reference _ _ => none
  | .directive (.tone _ name) _ => [name]
  | _ => []

/-- The names that a reference, a call or a chord uses. -/
def names : Expression → List String
  | .chord members _ =>
      members.filterMap fun
        | .note _ => none
        | .reference name _ => some name
  | .reference name _ => [name]
  | .call name _ _ => [name]
  | _ => []

/-- The kind of the sign that stands for the expression and for no other one. -/
def sign? : Expression → Option Token.Kind
  | .group _ _ => some .leftBracket
  | .repetition _ _ => some .asterisk
  | .bar _ => some .pipe
  | .directive (.tempo _) _ => some .caret
  | .directive (.measure _ _) _ => some .bang
  | _ => none

/-- What a node takes from its own tokens. -/
def own : Expression → List Ingredient
  | .note written => [.syllable written.name]
  | .chord members _ => members.map ChordMember.ingredient
  | .reference name _ => [.word name]
  | .call name _ _ => [.word name]
  | .directive (.tone _ name) _ => [.syllable name]
  | expression => expression.sign?.toList.map .sign

def ingredients (expression : Expression) : List Ingredient :=
  expression.nodes.flatMap own

def ingredientsOfAll (list : List Expression) : List Ingredient :=
  (nodesOfAll list).flatMap own

@[simp] theorem nodesOfAll_append (front back : List Expression) :
    nodesOfAll (front ++ back) = nodesOfAll front ++ nodesOfAll back := by
  induction front with
  | nil => rfl
  | cons item rest inductionHypothesis =>
      rw [List.cons_append, nodesOfAll, nodesOfAll, inductionHypothesis, List.append_assoc]

theorem nodesOfAll_eq (list : List Expression) : nodesOfAll list = list.flatMap nodes := by
  induction list with
  | nil => rfl
  | cons item rest inductionHypothesis => rw [nodesOfAll, inductionHypothesis, List.flatMap_cons]

theorem ingredientsOfAll_append (front back : List Expression) :
    ingredientsOfAll (front ++ back) = ingredientsOfAll front ++ ingredientsOfAll back := by
  unfold ingredientsOfAll
  rw [nodesOfAll_append, List.flatMap_append]

theorem ingredientsOfAll_flatMap {α : Type} (list : List α) (held : α → List Expression) :
    ingredientsOfAll (list.flatMap held) =
      list.flatMap fun holder => ingredientsOfAll (held holder) := by
  unfold ingredientsOfAll
  simp only [nodesOfAll_eq, List.flatMap_assoc]

/-- One more element is found behind those that are given latest first. -/
theorem ingredientsOfAll_reverse_cons (item : Expression) (found : List Expression) :
    ingredientsOfAll (item :: found).reverse =
      ingredientsOfAll found.reverse ++ item.ingredients := by
  rw [List.reverse_cons, ingredientsOfAll_append]
  congr 1
  unfold ingredientsOfAll ingredients
  rw [nodesOfAll, nodesOfAll, List.append_nil]

theorem ingredients_chord (members : List ChordMember) (token : Token) :
    (chord members token).ingredients = members.map ChordMember.ingredient :=
  List.append_nil _

end Expression

open Expression (ingredientsOfAll nodesOfAll)

/-! ### Scores -/

def Metadata.text : Metadata → String
  | .title text => text
  | .copyRight text => text

def Macro.ingredients (definition : Macro) : List Ingredient :=
  .word definition.name :: (definition.parameters.map .word ++ ingredientsOfAll definition.body)

def Movement.ingredients (movement : Movement) : List Ingredient :=
  .word movement.instrument ::
    (movement.tag.toList.map (.quoted · true) ++ ingredientsOfAll movement.expressions)

/-- The expressions of a score at any depth, in macros and in movements. -/
def Score.nodes (score : Score) : List Expression :=
  nodesOfAll (score.macros.flatMap Macro.body) ++
    nodesOfAll (score.movements.flatMap Movement.expressions)

/-- What a score consists of, but for the names of its tracks. -/
def Score.ingredients (score : Score) : List Ingredient :=
  score.metadata.map (fun entry => .quoted entry.text true) ++
    (score.macros.flatMap Macro.ingredients ++ score.movements.flatMap Movement.ingredients)

/-- What the tokens consist of that open a track with a title or without one. -/
def Ingredient.opening (title : Option String) : List Ingredient :=
  .sign .track :: title.toList.map (.quoted · true)

end Solfege
