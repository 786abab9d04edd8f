import Solfege.Proofs.Partition

/-!
Contract: each token of a source is a lexeme that was cut off, at the place where it was cut.

Owns:
- how strings and numbers are cut off;
- the stream of tokens that a run of lexemes yields, by recursion over the run;
- the proof that a source is accepted just if it is cut into lexemes to its end, and that its
  tokens are the stream of them;
- the lexeme of each token in a stream, with the text in front of it and behind it.

Does not own: what a token of some kind looks like.
-/

namespace Solfege

open Lexeme (Cuts textOf cut?)

namespace Lexeme

/-! ### Strings and numbers -/

/-- A string begins with its quote, and a number with a digit, behind which stand all further
digits and perhaps a unit. Behind them stands what was not cut off. -/
theorem literal_of_cut? {first : Char} {rest text behind : List Char} {kind : Token.Kind}
    (cut : cut? first rest = some (.token kind text, behind)) :
    (kind = .string → text = '"' :: (cutString rest).1 ∧ behind = (cutString rest).2) ∧
      (kind = .number → first.isDigit = true ∧
        text = first :: rest.takeWhile Char.isDigit ++ (cutUnit (rest.dropWhile Char.isDigit)).1 ∧
        behind = (cutUnit (rest.dropWhile Char.isDigit)).2) := by
  unfold cut? at cut
  split at cut
  · cases cut
  split at cut
  · cases cut
    exact ⟨Token.Kind.noConfusion, Token.Kind.noConfusion⟩
  split at cut
  · cases cut
    exact ⟨Token.Kind.noConfusion, Token.Kind.noConfusion⟩
  split at cut
  · rename_i quote
    subst quote
    cases cut
    exact ⟨fun _ => ⟨rfl, rfl⟩, Token.Kind.noConfusion⟩
  split at cut
  · rename_i digit
    cases cut
    exact ⟨Token.Kind.noConfusion, fun _ => ⟨digit, rfl, rfl⟩⟩
  split at cut
  · obtain ⟨same, _⟩ := Prod.mk.inj (Option.some.inj cut)
    obtain ⟨rfl, _⟩ := Lexeme.token.inj same
    have other := wordKind_ne (first :: rest.takeWhile continuesWord)
    exact ⟨fun isString => absurd isString other.1, fun isNumber => absurd isNumber other.2.1⟩
  · obtain ⟨found, isDelimiter, same⟩ := Option.map_eq_some_iff.mp cut
    obtain ⟨rfl, _⟩ := Lexeme.token.inj (Prod.mk.inj same).1
    have other := delimiter?_ne isDelimiter
    exact ⟨fun isString => absurd isString other.1, fun isNumber => absurd isNumber other.2.1⟩

/-- The tokens among lexemes that stand at a place, each at its own place, and behind them the
end of the file. -/
def stream (position : Position) : List Lexeme → List Token
  | [] => [Token.endOfFileAt position]
  | comment text :: others => stream (position.afterAll text) others
  | token kind text :: others =>
      ⟨String.ofList text, kind, position⟩ :: stream (position.afterAll text) others

theorem placedOnto_append_endOfFile (position : Position) (lexemes : List Lexeme) :
    placedOnto [] position lexemes ++
        [Token.endOfFileAt (position.afterAll (textOf lexemes))] =
      stream position lexemes := by
  induction lexemes generalizing position with
  | nil => rfl
  | cons lexeme others inductionHypothesis =>
      have place : position.afterAll (textOf (lexeme :: others)) =
          (position.afterAll lexeme.text).afterAll (textOf others) :=
        Position.afterAll_append _ _ _
      rw [place]
      cases lexeme with
      | comment text => exact inductionHypothesis _
      | token kind text =>
          rw [placedOnto, Token.placedOnto_eq, stream, ← inductionHypothesis]
          rfl

/-- Nothing is cut off a text to its end but what `cutAll` finds. -/
theorem Cuts.cutAll_eq {characters : List Char} {lexemes : List Lexeme}
    (run : Cuts characters lexemes []) : cutAll characters = (lexemes, []) :=
  run.cutAllOnto_eq []

end Lexeme

namespace Token

/-! ### Accepted sources -/

theorem tokenize_of_cutAll {source : String} {lexemes : List Lexeme}
    (cut : Lexeme.cutAll source.toList = (lexemes, [])) :
    tokenize source = .ok (Lexeme.stream .start lexemes) := by
  rw [← Lexeme.placedOnto_append_endOfFile]
  unfold tokenize
  rw [cut]
  rfl

/-- The tokens of a source are the stream of the lexemes that it is cut into to its end. -/
theorem tokenize_eq_ok_iff {source : String} {tokens : List Token} :
    tokenize source = .ok tokens ↔
      ∃ lexemes, Cuts source.toList lexemes [] ∧ tokens = Lexeme.stream .start lexemes := by
  constructor
  · intro tokenized
    obtain ⟨lexemes, rest, cut, run, _⟩ := Lexeme.exists_cuts_cutAllOnto [] source.toList
    have cutWhole : Lexeme.cutAll source.toList = (lexemes, rest) := cut
    cases rest with
    | nil =>
        rw [tokenize_of_cutAll cutWhole] at tokenized
        exact ⟨lexemes, run, (Except.ok.inj tokenized).symm⟩
    | cons character behind =>
        unfold tokenize at tokenized
        rw [cutWhole] at tokenized
        contradiction
  · rintro ⟨lexemes, run, rfl⟩
    exact tokenize_of_cutAll run.cutAll_eq

/-- The stream of a run is a partition of its text. -/
theorem partition_stream {characters : List Char} {lexemes : List Lexeme}
    (run : Cuts characters lexemes []) :
    Partition [] lexemes (Lexeme.stream .start lexemes) := by
  have partition := partition_of_cuts run []
  rwa [Lexeme.placedOnto_append_endOfFile] at partition

/-! ### The lexeme of a token -/

/-- A token that is not the end of the file was cut off between the text in front of it and the
text behind it. If nothing is behind it, only the end of the file follows. -/
theorem exists_cut_of_stream {characters left : List Char} {lexemes : List Lexeme}
    (run : Cuts characters lexemes left) {position : Position} {before behind : List Token}
    {token : Token} (split : Lexeme.stream position lexemes = before ++ token :: behind)
    (more : token.kind ≠ .endOfFile) :
    ∃ front first inside text rest, characters = front ++ first :: inside ∧
      cut? first inside = some (.token token.kind text, rest) ∧
      token.text = String.ofList text ∧ token.position = position.afterAll front ∧
      (rest = [] → ∃ final, behind = [endOfFileAt final]) := by
  induction run generalizing position before with
  | nil rest =>
      rcases List.append_eq_singleton_iff.mp split.symm with ⟨rfl, alone⟩ | ⟨_, none⟩
      · rw [(List.cons.inj alone).1] at more
        exact absurd rfl more
      · cases none
  | @cons first inside behindText rest lexeme others cut onward inductionHypothesis =>
      have text := Lexeme.text_append_of_cut? cut
      -- What is found further on has this lexeme in front of it.
      have further {later : List Token}
          (split : Lexeme.stream (position.afterAll lexeme.text) others =
            later ++ token :: behind) :
          ∃ front second more text rest, first :: inside = front ++ second :: more ∧
            cut? second more = some (.token token.kind text, rest) ∧
            token.text = String.ofList text ∧ token.position = position.afterAll front ∧
            (rest = [] → ∃ final, behind = [endOfFileAt final]) := by
        obtain ⟨front, second, more, found, left, same, there, spelled, place, last⟩ :=
          inductionHypothesis split
        refine ⟨lexeme.text ++ front, second, more, found, left, ?_, there, spelled, ?_, last⟩
        · rw [← text, same, List.append_assoc]
        · rw [place, Position.afterAll_append]
      cases lexeme with
      | comment characters => exact further split
      | token kind characters =>
          rw [Lexeme.stream] at split
          rcases List.cons_eq_append_iff.mp split with ⟨rfl, here⟩ | ⟨later, rfl, there⟩
          · obtain ⟨rfl, rfl⟩ := List.cons.inj here
            refine ⟨[], first, inside, characters, behindText, rfl, cut, rfl, rfl, ?_⟩
            intro atEnd
            rw [atEnd] at onward
            cases onward with
            | nil => exact ⟨_, rfl⟩
          · exact further there

/-- In the stream of a run, only the last token is the end of the file. -/
theorem kind_ne_of_mem_dropLast {characters left : List Char} {lexemes : List Lexeme}
    (run : Cuts characters lexemes left) (position : Position) :
    ∀ token ∈ (Lexeme.stream position lexemes).dropLast, token.kind ≠ .endOfFile := by
  induction run generalizing position with
  | nil rest => exact List.forall_mem_nil _
  | @cons first inside behind rest lexeme others cut onward inductionHypothesis =>
      cases lexeme with
      | comment text => exact inductionHypothesis _
      | token kind text =>
          have nonempty : Lexeme.stream (position.afterAll text) others ≠ [] := by
            rw [← Lexeme.placedOnto_append_endOfFile]
            exact List.append_ne_nil_of_right_ne_nil _ (List.cons_ne_nil _ _)
          rw [Lexeme.stream, List.dropLast_cons_of_ne_nil nonempty]
          exact List.forall_mem_cons.mpr
            ⟨(Lexeme.isWhole_of_cut? cut).2.1, inductionHypothesis _⟩

end Token

end Solfege
