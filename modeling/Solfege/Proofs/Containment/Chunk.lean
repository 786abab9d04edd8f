import Solfege.Proofs.Containment.Statement
import Solfege.Proofs.Reading.Rounds

/-!
Contract: a line is read in the same way whatever surrounds it.

Owns:
- chunks, which are lines that open nothing, each with the statement break that ends it;
- the rounds in which a chunk is read, which come to its end and are the same whatever was
  reported before and whatever stands behind.

Does not own: what a chunk stores, or reports.
-/

namespace Solfege.Reading

/-! ### Chunks -/

/-- A run of plain tokens, and the statement break that ends it. -/
structure Chunk where
  front : List Token
  stop : Token
  plain : ∀ token ∈ front, isPlain token.kind = true
  breaks : isStatementBreak stop.kind = true

def Chunk.tokens (chunk : Chunk) : List Token := chunk.front ++ [chunk.stop]

theorem Chunk.not_endOfFile {chunk : Chunk} {token : Token} (member : token ∈ chunk.tokens) :
    token.kind ≠ .endOfFile := by
  intro atEnd
  rcases List.mem_append.mp member with inFront | isStop
  · have plain := chunk.plain token inFront
    rw [atEnd] at plain
    contradiction
  · have breaks := chunk.breaks
    rw [← List.mem_singleton.mp isStop, atEnd] at breaks
    contradiction

theorem forall_mem_chunks (chunks : List Chunk) :
    ∀ token ∈ chunks.flatMap Chunk.tokens, token.kind ≠ .endOfFile := by
  intro token member
  rcases List.mem_flatMap.mp member with ⟨chunk, _, inChunk⟩
  exact Chunk.not_endOfFile inChunk

/-! ### Rounds in a frame -/

section Frame

variable {start next final : Score × Reading}

/-- What was reported before makes no difference. -/
theorem Round.around_whole (round : Round start next) (reported : List Diagnostic) :
    Round (start.1, (Frame.whole reported).around start.2)
      (next.1, (Frame.whole reported).around next.2) := by
  cases round with
  | skip separates => exact .skip separates
  | @read score _ before _ stands more result =>
      have carries : (Frame.whole reported).Carries (readStatement score) (readStatement score)
          before :=
        Frame.carries_readStatement score trivial (isStatementBreak_of_not_separates stands)
      exact .read stands more (carries.of_ok result).2

theorem Rounds.around_whole (rounds : Rounds start final) (reported : List Diagnostic) :
    Rounds (start.1, (Frame.whole reported).around start.2)
      (final.1, (Frame.whole reported).around final.2) := by
  induction rounds with
  | refl => exact .refl
  | tail _ round inductionHypothesis =>
      exact inductionHypothesis.tail (round.around_whole reported)

end Frame

/-! ### The rounds of a chunk -/

/-- A statement is read without the statement break behind it. What it leaves, makes and reports
does not depend on what stands behind. -/
theorem exists_round_read {first stop : Token} {others : List Token}
    (plain : ∀ token ∈ first :: others, isPlain token.kind = true)
    (breaks : isStatementBreak stop.kind = true)
    (stands : separatesStatements first.kind = false) (score : Score) :
    ∃ extended found left, left <:+ others ∧ ∀ behind last reported,
      Round (score, ⟨first :: others ++ stop :: behind, last, [], reported⟩)
        (extended, ⟨left ++ stop :: behind, last, [], reported ++ found⟩) := by
  -- Alone in its line the statement is read to its end; a frame then carries what was done.
  let alone : Reading := ⟨first :: others ++ [stop], Token.endOfFileAt .start, [], []⟩
  have closed : alone.Closed := rfl
  have more : first.kind ≠ .endOfFile := by
    intro atEnd
    have firstPlain := plain first List.mem_cons_self
    rw [atEnd] at firstPlain
    contradiction
  rcases (orderly_readStatement score closed more stands).exists_ok (unfailing_readStatement score)
    with ⟨extended, after, result, follows, taken, _⟩
  have carried (frame : Frame) (fits : frame.Fits alone) :
      frame.Fits after ∧ readStatement score (frame.around alone) =
        .ok extended (frame.around after) :=
    (Frame.carries_readStatement score fits (isStatementBreak_of_not_separates stands)).of_ok result
  have barredAlone : Barred alone.rest := .of_plain plain breaks
  have barred : Barred after.rest := (carried (.part [] stop []) barredAlone).1
  rcases (List.suffix_concat_iff.mp taken).resolve_left barred.ne_nil with ⟨left, rest, suffix⟩
  refine ⟨extended, after.diagnostics, left, suffix, fun behind last reported => ?_⟩
  have there := (carried (.part behind last reported) barredAlone).2
  simp only [Frame.around, rest, follows.contexts, alone, List.append_assoc, List.append_nil,
    List.singleton_append] at there
  exact .read stands more there

/-- Statements are read up to the statement break behind them. The score that they make and the
problems that are reported do not depend on what stands behind it. -/
theorem exists_rounds_to_break (bound : Nat) {front : List Token} {stop : Token}
    (fits : front.length < bound) (plain : ∀ token ∈ front, isPlain token.kind = true)
    (breaks : isStatementBreak stop.kind = true) (score : Score) :
    ∃ filled found, ∀ behind last reported,
      Rounds (score, ⟨front ++ stop :: behind, last, [], reported⟩)
        (filled, ⟨stop :: behind, last, [], reported ++ found⟩) := by
  -- A statement takes any number of tokens, so the induction is not on the tokens in front.
  induction bound generalizing front score with
  | zero => contradiction
  | succ bound inductionHypothesis =>
      cases front with
      | nil =>
          refine ⟨score, [], fun behind last reported => ?_⟩
          rw [List.append_nil]
          exact .refl
      | cons first others =>
          rcases List.forall_mem_cons.mp plain with ⟨firstPlain, othersPlain⟩
          by_cases separates : separatesStatements first.kind = true
          · rcases inductionHypothesis (Nat.lt_of_succ_lt_succ fits) othersPlain score with
              ⟨filled, found, rounds⟩
            refine ⟨filled, found, fun behind last reported => ?_⟩
            exact .head (.skip separates) (rounds behind last reported)
          · have stands : separatesStatements first.kind = false := by simpa using separates
            rcases exists_round_read plain breaks stands score with
              ⟨extended, found, left, suffix, round⟩
            have leftPlain : ∀ token ∈ left, isPlain token.kind = true :=
              fun token member => othersPlain token (suffix.subset member)
            have fewer : left.length < bound :=
              Nat.lt_of_le_of_lt suffix.length_le (Nat.lt_of_succ_lt_succ fits)
            rcases inductionHypothesis fewer leftPlain extended with ⟨filled, more, rounds⟩
            refine ⟨filled, found ++ more, fun behind last reported => ?_⟩
            rw [← List.append_assoc]
            exact .head (round behind last reported) (rounds behind last (reported ++ found))

theorem Chunk.exists_rounds (chunk : Chunk) (score : Score) :
    ∃ filled found, ∀ behind last reported,
      Rounds (score, ⟨chunk.tokens ++ behind, last, [], reported⟩)
        (filled, ⟨chunk.stop :: behind, last, [], reported ++ found⟩) := by
  rcases exists_rounds_to_break _ (Nat.lt_succ_self _) chunk.plain chunk.breaks score with
    ⟨filled, found, rounds⟩
  refine ⟨filled, found, fun behind last reported => ?_⟩
  rw [Chunk.tokens, List.append_assoc]
  exact rounds behind last reported

/-- The statement break behind a chunk is left behind like a blank. -/
theorem Chunk.round_stop (chunk : Chunk) (score : Score) (behind : List Token) (last : Token)
    (reported : List Diagnostic) :
    Round (score, ⟨chunk.stop :: behind, last, [], reported⟩)
      (score, ⟨behind, last, [], reported⟩) := by
  apply Round.skip
  show separatesStatements chunk.stop.kind = true
  by_contra stands
  have breaks := chunk.breaks
  rw [isStatementBreak_of_not_separates (by simpa using stands)] at breaks
  contradiction

theorem exists_rounds_chunks (chunks : List Chunk) (score : Score) :
    ∃ filled found, ∀ behind last reported,
      Rounds (score, ⟨chunks.flatMap Chunk.tokens ++ behind, last, [], reported⟩)
        (filled, ⟨behind, last, [], reported ++ found⟩) := by
  induction chunks generalizing score with
  | nil =>
      refine ⟨score, [], fun behind last reported => ?_⟩
      rw [List.append_nil]
      exact .refl
  | cons chunk others inductionHypothesis =>
      rcases chunk.exists_rounds score with ⟨middle, found, rounds⟩
      rcases inductionHypothesis middle with ⟨filled, more, onward⟩
      refine ⟨filled, found ++ more, fun behind last reported => ?_⟩
      rw [List.flatMap_cons, List.append_assoc, ← List.append_assoc reported]
      exact (rounds _ last reported).trans
        (.head (chunk.round_stop middle _ last _) (onward behind last _))

end Solfege.Reading
