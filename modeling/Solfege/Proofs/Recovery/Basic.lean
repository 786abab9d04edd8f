import Solfege.Proofs.Reading.Conduct
import Solfege.Proofs.Reading.Nesting

/-!
Contract: tokens up to the end of a call, and the brackets that are open among them.

Owns:
- the closing brackets that are expected, as a stack, and tokens that bring all of them;
- such tokens from brackets that nest;
- where resuming behind a problem comes to among such tokens.

Does not own: the grammar.

The stack is told by the tokens that are still to be read, and not by those that were. So a
reader that ends a call too early is seen to stand in front of closing parentheses that nobody
expects any more.
-/

namespace Solfege.Reading

/-! ### Closing brackets -/

/-- The closing brackets that are expected behind a token of the given kind, the next one first.
Without any, and at the end of the file, there is no such token. -/
def closersBehind : List Token.Kind → Token.Kind → Option (List Token.Kind)
  | [], _ => none
  | next :: others, .leftParen => some (.rightParen :: next :: others)
  | next :: others, .leftBracket => some (.rightBracket :: next :: others)
  | next :: others, .rightParen => if next = .rightParen then some others else none
  | next :: others, .rightBracket => if next = .rightBracket then some others else none
  | _ :: _, .endOfFile => none
  | next :: others, _ => some (next :: others)

/-- Whether a kind neither is a bracket nor ends the file. -/
def isInert : Token.Kind → Bool
  | .leftParen | .rightParen | .leftBracket | .rightBracket | .endOfFile => false
  | _ => true

section Closers

variable {closers behind : List Token.Kind} {kind : Token.Kind}

theorem closersBehind_of_isInert (inert : isInert kind = true) (expected : closers ≠ []) :
    closersBehind closers kind = some closers := by
  cases closers with
  | nil => exact absurd rfl expected
  | cons next others => cases kind <;> first | rfl | contradiction

theorem closersBehind_leftParen (expected : closers ≠ []) :
    closersBehind closers .leftParen = some (.rightParen :: closers) := by
  cases closers with
  | nil => exact absurd rfl expected
  | cons next others => rfl

theorem closersBehind_leftBracket (expected : closers ≠ []) :
    closersBehind closers .leftBracket = some (.rightBracket :: closers) := by
  cases closers with
  | nil => exact absurd rfl expected
  | cons next others => rfl

/-- What a token can do: nothing, open a bracket, or be the closing bracket that is expected. -/
theorem closersBehind_cases (step : closersBehind closers kind = some behind) :
    (isInert kind = true ∧ behind = closers) ∨
      (kind = .leftParen ∧ behind = .rightParen :: closers) ∨
      (kind = .leftBracket ∧ behind = .rightBracket :: closers) ∨
      (kind = .rightParen ∧ closers = .rightParen :: behind) ∨
      kind = .rightBracket ∧ closers = .rightBracket :: behind := by
  cases closers with
  | nil => contradiction
  | cons next others =>
      cases kind <;> simp_all [closersBehind, isInert, eq_comm]

theorem not_endOfFile_of_closersBehind (step : closersBehind closers kind = some behind) :
    kind ≠ .endOfFile := by
  rintro rfl
  cases closers <;> contradiction

end Closers

/-- The tokens bring all closing brackets that are expected, in their order, and end with the
last one. Where calls are grouped, a parenthesis opens only where the end of a group is
expected. -/
inductive Closes (grouped : Bool) : List Token.Kind → List Token → Prop where
  | done : Closes grouped [] []
  | cons {closers behind : List Token.Kind} {token : Token} {rest : List Token}
      (step : closersBehind closers token.kind = some behind)
      (call : grouped = true → token.kind = .leftParen → .rightBracket ∈ closers)
      (onward : Closes grouped behind rest) : Closes grouped closers (token :: rest)

section Closes

variable {grouped : Bool} {closers : List Token.Kind} {tokens more : List Token}

theorem Closes.exists_cons (closes : Closes grouped closers tokens) (expected : closers ≠ []) :
    ∃ first rest behind, tokens = first :: rest ∧
      closersBehind closers first.kind = some behind ∧ Closes grouped behind rest := by
  cases closes with
  | done => exact absurd rfl expected
  | cons step _ onward => exact ⟨_, _, _, rfl, step, onward⟩

theorem Closes.of_cons {token : Token} {rest : List Token}
    (closes : Closes grouped closers (token :: rest)) :
    ∃ behind, closersBehind closers token.kind = some behind ∧
      (grouped = true → token.kind = .leftParen → .rightBracket ∈ closers) ∧
      Closes grouped behind rest := by
  cases closes with
  | cons step call onward => exact ⟨_, step, call, onward⟩

theorem Closes.cons_inert {token : Token} (onward : Closes grouped closers tokens)
    (inert : isInert token.kind = true) (expected : closers ≠ []) :
    Closes grouped closers (token :: tokens) := by
  refine .cons (closersBehind_of_isInert inert expected) (fun _ opens => ?_) onward
  rw [opens] at inert
  contradiction

theorem Closes.cons_leftParen {opening : Token}
    (onward : Closes grouped (.rightParen :: closers) tokens) (opens : opening.kind = .leftParen)
    (expected : closers ≠ []) (calls : grouped = true → .rightBracket ∈ closers) :
    Closes grouped closers (opening :: tokens) := by
  refine .cons ?_ (fun only _ => calls only) onward
  rw [opens, closersBehind_leftParen expected]

theorem Closes.cons_leftBracket {opening : Token}
    (onward : Closes grouped (.rightBracket :: closers) tokens)
    (opens : opening.kind = .leftBracket) (expected : closers ≠ []) :
    Closes grouped closers (opening :: tokens) := by
  refine .cons ?_ (fun _ paren => ?_) onward
  · rw [opens, closersBehind_leftBracket expected]
  · rw [opens] at paren
    contradiction

theorem Closes.cons_closing {closing : Token} (onward : Closes grouped closers tokens)
    (brackets : closing.kind = .rightParen ∨ closing.kind = .rightBracket) :
    Closes grouped (closing.kind :: closers) (closing :: tokens) := by
  refine .cons ?_ (fun _ opens => ?_) onward
  · rcases brackets with kind | kind <;> rw [kind] <;> rfl
  · rcases brackets with kind | kind <;> rw [kind] at opens <;> contradiction

theorem isInert_of_plain {token : Token}
    (neither : ∀ pair ∈ Token.allBrackets, token.kind ≠ pair.1 ∧ token.kind ≠ pair.2)
    (more : token.kind ≠ .endOfFile) : isInert token.kind = true := by
  have round := neither (.leftParen, .rightParen) (by decide)
  have square := neither (.leftBracket, .rightBracket) (by decide)
  cases kind : token.kind <;> simp_all [isInert]

/-- Tokens in which brackets nest leave the expected brackets as they are. -/
theorem Closes.nested_append (nested : Token.Nested Token.allBrackets tokens)
    (ends : ∀ token ∈ tokens, token.kind ≠ .endOfFile) (expected : closers ≠ [])
    (calls : grouped = true → .rightBracket ∈ closers) (onward : Closes grouped closers more) :
    Closes grouped closers (tokens ++ more) := by
  induction nested generalizing closers more with
  | nil => exact onward
  | plain neither _ inductionHypothesis =>
      obtain ⟨here, others⟩ := List.forall_mem_cons.mp ends
      exact (inductionHypothesis others expected calls onward).cons_inert
        (isInert_of_plain neither here) expected
  | @enclosed opening closing inside rest pair _ _ within beyond =>
      rw [List.forall_mem_cons, List.forall_mem_append, List.forall_mem_cons] at ends
      obtain ⟨_, endsInside, _, endsBeyond⟩ := ends
      have last := beyond endsBeyond expected calls onward
      rw [List.cons_append, List.append_assoc, List.cons_append]
      simp only [Token.allBrackets, List.mem_cons, Prod.mk.injEq, List.not_mem_nil,
        or_false] at pair
      rcases pair with ⟨opens, closes⟩ | ⟨opens, closes⟩
      · have inner : Closes grouped (.rightParen :: closers) (closing :: (rest ++ more)) :=
          closes ▸ last.cons_closing (.inl closes)
        exact (within endsInside (List.cons_ne_nil _ _)
          (fun only => List.mem_cons_of_mem _ (calls only)) inner).cons_leftParen opens expected
            calls
      · have inner : Closes grouped (.rightBracket :: closers) (closing :: (rest ++ more)) :=
          closes ▸ last.cons_closing (.inr closes)
        exact (within endsInside (List.cons_ne_nil _ _) (fun _ => List.mem_cons_self)
          inner).cons_leftBracket opens expected

end Closes

/-! ### Calls in groups -/

/-- Tokens in which brackets nest, and round ones stand in square ones only. -/
inductive Grouped : List Token → Prop where
  | nil : Grouped []
  | plain {token : Token} {rest : List Token} (inert : isInert token.kind = true)
      (behind : Grouped rest) : Grouped (token :: rest)
  | group {opening closing : Token} {inside rest : List Token}
      (opens : opening.kind = .leftBracket) (closes : closing.kind = .rightBracket)
      (within : Token.Nested Token.allBrackets inside)
      (ends : ∀ token ∈ inside, token.kind ≠ .endOfFile) (behind : Grouped rest) :
      Grouped (opening :: (inside ++ closing :: rest))

theorem Closes.grouped_append {flag : Bool} {closers : List Token.Kind}
    {tokens more : List Token} (grouped : Grouped tokens) (expected : closers ≠ [])
    (onward : Closes flag closers more) : Closes flag closers (tokens ++ more) := by
  induction grouped with
  | nil => exact onward
  | plain inert _ inductionHypothesis => exact inductionHypothesis.cons_inert inert expected
  | @group opening closing inside rest opens closes within ends _ inductionHypothesis =>
      have inner : Closes flag (.rightBracket :: closers) (closing :: (rest ++ more)) :=
        closes ▸ inductionHypothesis.cons_closing (.inr closes)
      rw [List.cons_append, List.append_assoc, List.cons_append]
      exact (Closes.nested_append within ends (List.cons_ne_nil _ _) (fun _ => List.mem_cons_self)
        inner).cons_leftBracket opens expected

/-! ### Resuming behind a problem -/

/-- Closing brackets that are expected before those of the floor. Where calls are grouped, a
group was opened before any parenthesis, here or below. -/
structure Above (grouped : Bool) (floor upper : List Token.Kind) : Prop where
  brackets : ∀ kind ∈ upper, kind = .rightParen ∨ kind = .rightBracket
  calls : grouped = true →
    upper = [] ∨ upper.getLast? = some .rightBracket ∨ .rightBracket ∈ floor

namespace Above

variable {grouped : Bool} {floor upper : List Token.Kind}

theorem cons_rightBracket (above : Above grouped floor upper) :
    Above grouped floor (.rightBracket :: upper) where
  brackets := List.forall_mem_cons.mpr ⟨.inr rfl, above.brackets⟩
  calls only := by
    rcases above.calls only with rfl | last | below
    · exact .inr (.inl rfl)
    · exact .inr (.inl (by rw [List.getLast?_cons, last]; rfl))
    · exact .inr (.inr below)

theorem cons_rightParen (above : Above grouped floor upper)
    (group : grouped = true → .rightBracket ∈ upper ++ floor) :
    Above grouped floor (.rightParen :: upper) where
  brackets := List.forall_mem_cons.mpr ⟨.inl rfl, above.brackets⟩
  calls only := by
    rcases above.calls only with rfl | last | below
    · exact .inr (.inr (group only))
    · exact .inr (.inl (by rw [List.getLast?_cons, last]; rfl))
    · exact .inr (.inr below)

theorem of_cons {kind : Token.Kind} (above : Above grouped floor (kind :: upper)) :
    Above grouped floor upper where
  brackets := (List.forall_mem_cons.mp above.brackets).2
  calls only := by
    rcases above.calls only with impossible | last | below
    · contradiction
    · cases upper with
      | nil => exact .inl rfl
      | cons => exact .inr (.inl (by rwa [List.getLast?_cons_cons] at last))
    · exact .inr (.inr below)

/-- Where no group is left open, only parentheses are. -/
theorem eq_replicate (above : Above grouped floor upper)
    (none : upper.count .rightBracket = 0) :
    upper = List.replicate upper.length .rightParen ∧
      (grouped = true → upper.length = 0 ∨ .rightBracket ∈ floor) := by
  have absent := List.count_eq_zero.mp none
  refine ⟨List.eq_replicate_of_mem fun kind member => ?_, fun only => ?_⟩
  · refine (above.brackets kind member).resolve_right fun same => ?_
    exact absent (same ▸ member)
  · rcases above.calls only with nothing | last | below
    · exact .inl (congrArg List.length nothing)
    · exact absurd (List.mem_of_getLast? last) absent
    · exact .inr below

end Above

section Resuming

variable {test : Token.Kind → Bool} {next : Token.Kind} {grouped : Bool}
variable {upper others : List Token.Kind}

/-- A token at which reading cannot go on is skipped, and the depth is that of the closing
brackets that are expected behind it. -/
theorem Above.resumption_cons {expected : List Token.Kind} {token : Token}
    (above : Above grouped (next :: others) upper)
    (tests : ∀ kind, test kind = true ↔ kind = next)
    (onward : ¬(upper.count .rightBracket = 0 ∧ token.kind = next))
    (step : closersBehind (upper ++ next :: others) token.kind = some expected)
    (call : grouped = true → token.kind = .leftParen →
      .rightBracket ∈ upper ++ next :: others) (rest : List Token) :
    ∃ higher, expected = higher ++ next :: others ∧ Above grouped (next :: others) higher ∧
      resumption test (upper.count .rightBracket) (token :: rest) =
        resumption test (higher.count .rightBracket) rest := by
  have skips : ¬(upper.count .rightBracket = 0 ∧ test token.kind = true) := by
    rwa [tests]
  rcases closersBehind_cases step with ⟨inert, rfl⟩ | ⟨kind, rfl⟩ | ⟨kind, rfl⟩ |
    ⟨kind, popped⟩ | ⟨kind, popped⟩
  -- Only a closing bracket can be that of the floor, and then reading goes on at it.
  · refine ⟨upper, rfl, above, ?_⟩
    cases kind : token.kind <;> simp_all [resumption, isInert]
  · refine ⟨_ :: upper, rfl, above.cons_rightParen fun only => call only kind, ?_⟩
    simp_all [resumption]
  · refine ⟨_ :: upper, rfl, above.cons_rightBracket, ?_⟩
    simp_all [resumption]
  · cases upper with
    | nil =>
        refine absurd ⟨rfl, ?_⟩ onward
        rw [kind, (List.cons.inj popped).1]
    | cons highest higher =>
        obtain ⟨rfl, rfl⟩ := List.cons.inj popped
        refine ⟨higher, rfl, above.of_cons, ?_⟩
        simp_all [resumption]
  · cases upper with
    | nil =>
        refine absurd ⟨rfl, ?_⟩ onward
        rw [kind, (List.cons.inj popped).1]
    | cons highest higher =>
        obtain ⟨rfl, rfl⟩ := List.cons.inj popped
        refine ⟨higher, rfl, above.of_cons, ?_⟩
        simp_all [resumption]

/-- Reading goes on at the first closing bracket that passes the test and stands in no further
square brackets. By then nothing but parentheses is open above the floor, and where calls are
grouped, only if a group is open below. -/
theorem Closes.resumption {region : List Token}
    (closes : Closes grouped (upper ++ next :: others) region)
    (above : Above grouped (next :: others) upper)
    (tests : ∀ kind, test kind = true ↔ kind = next) (behind : List Token) :
    ∃ extra left, resumption test (upper.count .rightBracket) (region ++ behind) =
        left ++ behind ∧
      left <:+ region ∧ (∃ first ∈ left.head?, first.kind = next) ∧
      Closes grouped (List.replicate extra .rightParen ++ next :: others) left ∧
      (grouped = true → extra = 0 ∨ .rightBracket ∈ next :: others) := by
  induction region generalizing upper with
  | nil =>
      obtain ⟨_, _, _, impossible, _⟩ := closes.exists_cons (by simp)
      contradiction
  | cons token rest inductionHypothesis =>
      obtain ⟨expected, step, call, onward⟩ := closes.of_cons
      by_cases stops : upper.count .rightBracket = 0 ∧ token.kind = next
      · obtain ⟨round, below⟩ := above.eq_replicate stops.1
        refine ⟨upper.length, token :: rest, ?_, List.suffix_refl _, ⟨token, rfl, stops.2⟩,
          round ▸ closes, below⟩
        rw [List.cons_append, Reading.resumption, if_pos (by simp [stops, tests])]
      · obtain ⟨higher, rfl, aboveHigher, skipped⟩ :=
          above.resumption_cons tests stops step call (rest ++ behind)
        obtain ⟨extra, left, there, shorter, found⟩ := inductionHypothesis onward aboveHigher
        exact ⟨extra, left, skipped.trans there, shorter.trans (List.suffix_cons token rest),
          found⟩

end Resuming

end Solfege.Reading
