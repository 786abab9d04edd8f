import Solfege.Proofs.Spelling.Basic
import Mathlib.Data.List.Nodup

/-!
Contract: the tokens of a source stand one behind the other, and its words are names.

Owns:
- the order of places in a text;
- the proof that each token of a source is at a later place than those before it;
- the proof that a token that is a word has a text that can be a name.

Does not own: what a word names.
-/

namespace Solfege

/-! ### The order of places -/

/-- The place is on an earlier line, or in front on the same line. -/
def Position.Before (position other : Position) : Prop :=
  position.line < other.line ∨ position.line = other.line ∧ position.column < other.column

instance (position other : Position) : Decidable (position.Before other) :=
  inferInstanceAs (Decidable (position.line < other.line ∨
    position.line = other.line ∧ position.column < other.column))

namespace Position

variable {first second third : Position}

theorem Before.trans (early : first.Before second) (late : second.Before third) :
    first.Before third := by
  unfold Before at early late ⊢
  omega

theorem Before.irrefl (position : Position) : ¬position.Before position := by
  unfold Before
  omega

theorem Before.asymm (early : first.Before second) : ¬second.Before first :=
  fun late => Before.irrefl first (early.trans late)

theorem Before.ne (early : first.Before second) : first ≠ second := by
  rintro rfl
  exact Before.irrefl first early

/-- Of two places one is in front of the other. -/
theorem before_or_before (apart : first ≠ second) :
    first.Before second ∨ second.Before first := by
  rcases first with ⟨line, column⟩
  rcases second with ⟨otherLine, otherColumn⟩
  have differ : ¬(line = otherLine ∧ column = otherColumn) :=
    fun same => apart (by rw [same.1, same.2])
  unfold Before
  dsimp only
  omega

/-- Of things that stand one behind the other no two share a place. -/
theorem eq_of_pairwise {α : Type} {place : α → Position} {list : List α}
    (ordered : list.Pairwise fun earlier later => (place earlier).Before (place later))
    {one other : α} (member : one ∈ list) (otherMember : other ∈ list)
    (same : place one = place other) : one = other := by
  have distinct : (list.map place).Nodup := List.pairwise_map.mpr (ordered.imp Before.ne)
  exact List.inj_on_of_nodup_map distinct member otherMember same

theorem before_after (position : Position) (character : Char) :
    position.Before (position.after character) := by
  unfold Before after
  split <;> simp

/-- Reading on leads to a later place. -/
theorem before_afterAll (position : Position) {characters : List Char}
    (nonempty : characters ≠ []) : position.Before (position.afterAll characters) := by
  induction characters generalizing position with
  | nil => contradiction
  | cons character rest inductionHypothesis =>
      rw [afterAll_cons]
      have next := before_after position character
      cases rest with
      | nil => exact next
      | cons other more => exact next.trans (inductionHypothesis _ (List.cons_ne_nil _ _))

theorem behind_before_append (before : List Char) {text : List Char} (nonempty : text ≠ []) :
    (behind before).Before (behind (before ++ text)) := by
  rw [← afterAll_behind]
  exact before_afterAll _ nonempty

end Position

/-! ### Tokens in their order -/

namespace Token

/-- The tokens of a partition stand one behind the other, and none of them in front of the text
that is partitioned. -/
theorem Partition.pairwise {before : List Char} {pieces : List Lexeme} {tokens : List Token}
    (partition : Partition before pieces tokens) :
    tokens.Pairwise (fun earlier later => earlier.position.Before later.position) ∧
      ∀ token ∈ tokens, token.position = .behind before ∨
        (Position.behind before).Before token.position := by
  induction partition with
  | done before =>
      constructor
      · exact List.pairwise_singleton _ _
      · intro token member
        rw [List.mem_singleton.mp member]
        exact .inl rfl
  | @comment before text pieces tokens _ _ _ inductionHypothesis =>
      rcases inductionHypothesis with ⟨ordered, behind⟩
      have next := Position.behind_before_append before (List.cons_ne_nil '#' text)
      refine ⟨ordered, fun token member => .inr ?_⟩
      rcases behind token member with same | later
      · rw [same]
        exact next
      · exact next.trans later
  | @token before text kind pieces tokens nonempty _ _ _ inductionHypothesis =>
      rcases inductionHypothesis with ⟨ordered, behind⟩
      have next := Position.behind_before_append before nonempty
      have others : ∀ token ∈ tokens, (Position.behind before).Before token.position := by
        intro token member
        rcases behind token member with same | later
        · rw [same]
          exact next
        · exact next.trans later
      refine ⟨.cons others ordered, fun token member => ?_⟩
      rcases List.mem_cons.mp member with rfl | later
      · exact .inl rfl
      · exact .inr (others token later)

/-- Each token of a partition is a piece of the text, but for the end of the file. -/
theorem Partition.exists_piece {before : List Char} {pieces : List Lexeme} {tokens : List Token}
    (partition : Partition before pieces tokens) :
    ∀ token ∈ tokens, token.kind = .endOfFile ∨
      ∃ text, token.text = String.ofList text ∧ Lexeme.token token.kind text ∈ pieces := by
  induction partition with
  | done before =>
      intro token member
      rw [List.mem_singleton.mp member]
      exact .inl rfl
  | comment _ _ _ inductionHypothesis =>
      intro token member
      apply (inductionHypothesis token member).imp_right
      rintro ⟨text, same, piece⟩
      exact ⟨text, same, List.mem_cons_of_mem _ piece⟩
  | token _ _ _ _ inductionHypothesis =>
      intro token member
      rcases List.mem_cons.mp member with rfl | later
      · exact .inr ⟨_, rfl, List.mem_cons_self⟩
      · apply (inductionHypothesis token later).imp_right
        rintro ⟨text, same, piece⟩
        exact ⟨text, same, List.mem_cons_of_mem _ piece⟩

theorem Partition.getLast? {before : List Char} {pieces : List Lexeme} {tokens : List Token}
    (partition : Partition before pieces tokens) :
    ∃ final, tokens.getLast? = some final ∧ final.kind = .endOfFile := by
  induction partition with
  | done before => exact ⟨_, rfl, rfl⟩
  | comment _ _ _ inductionHypothesis => exact inductionHypothesis
  | token _ _ _ _ inductionHypothesis =>
      rcases inductionHypothesis with ⟨final, last, ends⟩
      exact ⟨final, by rw [List.getLast?_cons, last]; rfl, ends⟩

/-! ### Words -/

theorem delimiter?_ne_word (character : Char) :
    Token.Kind.delimiter? character ≠ some .word := by
  unfold Token.Kind.delimiter?
  split <;> decide

theorem keyword?_ne_word (text : String) : Token.Kind.keyword? text ≠ some .word := by
  unfold Token.Kind.keyword?
  split
  all_goals try decide
  cases Syllable.ofWritten? text with
  | none => decide
  | some name => simp

theorem keyword?_of_wordKind {characters : List Char}
    (isWord : Lexeme.wordKind characters = .word) :
    Token.Kind.keyword? (String.ofList characters) = none := by
  unfold Lexeme.wordKind at isWord
  cases reserved : Token.Kind.keyword? (String.ofList characters) with
  | none => rfl
  | some kind =>
      rw [reserved, Option.getD_some] at isWord
      rw [isWord] at reserved
      exact absurd reserved (keyword?_ne_word _)

/-- A word that is cut off is no reserved one. -/
theorem isName_of_cut? {first : Char} {rest behind text : List Char}
    (cut : Lexeme.cut? first rest = some (.token .word text, behind)) :
    IsName (String.ofList text) := by
  unfold Lexeme.cut? at cut
  -- Each of the other lexemes is of another kind.
  split at cut
  · cases cut
  split at cut
  · cases cut
  split at cut
  · cases cut
  split at cut
  · cases cut
  split at cut
  · cases cut
  split at cut
  · rename_i begins
    rcases Prod.mk.inj (Option.some.inj cut) with ⟨same, _⟩
    rcases Lexeme.token.inj same with ⟨isWord, rfl⟩
    refine ⟨?_, keyword?_of_wordKind isWord⟩
    rw [String.toList_ofList]
    exact ⟨first, _, rfl, begins, fun character member => List.mem_takeWhile_imp member⟩
  · rcases Option.map_eq_some_iff.mp cut with ⟨kind, isDelimiter, same⟩
    rcases Lexeme.token.inj (Prod.mk.inj same).1 with ⟨rfl, _⟩
    exact absurd isDelimiter (delimiter?_ne_word first)

theorem isName_of_cuts {characters rest : List Char} {lexemes : List Lexeme}
    (run : Lexeme.Cuts characters lexemes rest) :
    ∀ text, Lexeme.token .word text ∈ lexemes → IsName (String.ofList text) := by
  induction run with
  | nil rest => simp
  | cons cut run inductionHypothesis =>
      intro text member
      rcases List.mem_cons.mp member with rfl | later
      · exact isName_of_cut? cut
      · exact inductionHypothesis text later

/-- The tokens of a source: each is at a later place than those before it, the words are names,
and the last one is the end of the file. -/
structure Ordered (tokens : List Token) : Prop where
  places : tokens.Pairwise fun earlier later => earlier.position.Before later.position
  names : ∀ token ∈ tokens, token.kind = .word → IsName token.text
  ends : ∃ final, tokens.getLast? = some final ∧ final.kind = .endOfFile

theorem ordered_of_tokenize {source : String} {tokens : List Token}
    (tokenized : tokenize source = .ok tokens) : Ordered tokens := by
  obtain ⟨lexemes, rest, cut, run, _⟩ := Lexeme.exists_cuts_cutAllOnto [] source.toList
  have cutWhole : Lexeme.cutAll source.toList = (lexemes, rest) := cut
  cases rest with
  | cons character behind =>
      unfold tokenize at tokenized
      rw [cutWhole] at tokenized
      contradiction
  | nil =>
      rcases tokenize_of_cuts run with ⟨known, same, partition⟩
      rw [tokenized] at same
      cases same
      refine ⟨partition.pairwise.1, fun token member isWord => ?_, partition.getLast?⟩
      rcases partition.exists_piece token member with atEnd | ⟨text, same, piece⟩
      · rw [isWord] at atEnd
        contradiction
      · rw [isWord] at piece
        rw [same]
        exact isName_of_cuts run text piece

end Token

end Solfege
