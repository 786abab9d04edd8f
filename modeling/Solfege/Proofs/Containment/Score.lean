import Solfege.Proofs.Containment.Chunk
import Solfege.Proofs.Provenance.Score

/-!
Contract: a broken statement is contained in its line.

Owns:
- what makes a score larger, and that rounds which make it no larger leave it as it is;
- the way of a reader from one place of the input to another;
- the proof that a chunk which stores nothing could as well be left out, but for the problems
  that are reported of it.

Does not own: which problems there are.
-/

namespace Solfege

/-! ### What a score holds -/

namespace Score

/-- How much a score holds. -/
def size (score : Score) : Nat :=
  score.metadata.length + score.macros.length + score.tracks.length + score.movements.length

/-- A statement is stored, unless it is a movement that no track was opened for. -/
theorem extended_eq_or_size_lt (score : Score) (statement : Reading.Statement) :
    score.extended statement = score ∨ score.size < (score.extended statement).size := by
  cases statement with
  | metadata entry keyword => simp [extended, addMetadata, size, movements]
  | track name => simp [extended, addTrack, size, movements]
  | definition added =>
      apply Or.inr
      simp [extended, size, movements, macros_addMacro, metadata_addMacro, tracks_addMacro]
  | movement added =>
      rcases List.eq_nil_or_concat score.tracks with unopened | ⟨earlier, track, opened⟩
      · exact .inl (addMovement_of_tracks_nil unopened added)
      · rw [List.concat_eq_append] at opened
        apply Or.inr
        simp [extended, size, movements, macros_addMovement, metadata_addMovement,
          tracks_addMovement opened, opened, Track.add]

/-- Tokens that open no track make no difference to where movements belong. -/
theorem opened_without {part : List Token} (trackless : ∀ token ∈ part, token.kind ≠ .track)
    (front behind : List Token) (trackName : String) :
    opened (front ++ part ++ behind) trackName = opened (front ++ behind) trackName := by
  have none : (part.any fun token => token.kind = .track) = false := by
    simpa using trackless
  simp [opened, List.any_append, none]

end Score

namespace Reading

/-! ### What a round stores -/

section Rounds

variable {start next final : Score × Reading}

/-- A round stores something, or leaves the score as it is. -/
theorem Round.eq_or_size_lt (round : Round start next) (closed : start.2.Closed) :
    next.1 = start.1 ∨ start.1.size < next.1.size := by
  cases round with
  | skip separates => exact .inl rfl
  | read stands more result =>
      rcases ((orderly_readStatement _ closed more stands).of_ok result).2.2 with
        same | ⟨statement, _, _, same⟩
      · exact .inl same
      · rw [same]
        exact Score.extended_eq_or_size_lt _ statement

theorem Rounds.eq_or_size_lt (rounds : Rounds start final) (closed : start.2.Closed) :
    final.1 = start.1 ∨ start.1.size < final.1.size := by
  induction rounds with
  | refl => exact .inl rfl
  | tail rounds round inductionHypothesis =>
      have closedHere := (Rounds.follows rounds closed).closed closed
      rcases inductionHypothesis, round.eq_or_size_lt closedHere with
        ⟨same | grows, sameThere | growsThere⟩
      · exact .inl (sameThere.trans same)
      · exact .inr (same ▸ growsThere)
      · exact .inr (sameThere.symm ▸ grows)
      · exact .inr (Nat.lt_trans grows growsThere)

end Rounds

/-! ### The rounds behind a chunk -/

/-- The rounds up to the end of the file make and report the same whatever was reported before.
Where no token is left, neither does it matter which one closes the input. -/
theorem exists_rounds_to_end (score : Score) (tokens : List Token) {last : Token}
    (closed : last.kind = .endOfFile) :
    ∃ filled found, ∀ (other : Token) (reported : List Diagnostic), other.kind = .endOfFile →
      (tokens ≠ [] → other = last) → ∃ after,
        Rounds (score, ⟨tokens, other, [], reported⟩) (filled, after) ∧
          after.current.kind = .endOfFile ∧ after.diagnostics = reported ++ found := by
  by_cases empty : tokens = []
  · refine ⟨score, [], fun other reported otherClosed _ => ⟨_, .refl, ?_, by simp⟩⟩
    rw [empty]
    exact otherClosed
  · let start : Reading := ⟨tokens, last, [], []⟩
    have startClosed : start.Closed := closed
    rcases exists_statements_eq_ok score startClosed rfl with ⟨standing, after, result, _⟩
    rcases rounds_statementsFrom startClosed (statements_of_ok result) with ⟨rounds, atEnd⟩
    refine ⟨standing.foldl Score.extended score, after.diagnostics, ?_⟩
    intro other reported _ sameLast
    have there := Rounds.around_whole rounds reported
    simp only [Frame.around, start, List.append_nil] at there
    rw [sameLast empty]
    exact ⟨_, there, atEnd, rfl⟩

/-- The tokens in front are read first. The token that closes the input is the same with them and
without, unless they are all that there is. -/
theorem exists_ofTokens_append (front behind : List Token)
    (goesOn : ∀ token ∈ front, token.kind ≠ .endOfFile) :
    ∃ last, ofTokens (front ++ behind) = ⟨front ++ (ofTokens behind).rest, last, [], []⟩ ∧
      last.kind = .endOfFile ∧ ((ofTokens behind).rest ≠ [] → last = (ofTokens behind).last) := by
  rcases List.eq_nil_or_concat behind with rfl | ⟨init, final, rfl⟩
  · rcases List.eq_nil_or_concat front with rfl | ⟨others, ending, rfl⟩
    · exact ⟨_, rfl, rfl, fun _ => rfl⟩
    · rw [List.concat_eq_append] at goesOn ⊢
      have more : ending.kind ≠ .endOfFile := goesOn ending (by simp)
      refine ⟨Token.endOfFileAt ⟨ending.position.line, ending.position.column +
        ending.text.length⟩, ?_, rfl, fun nonempty => absurd rfl nonempty⟩
      unfold ofTokens
      simp [more]
  · rw [List.concat_eq_append]
    refine ⟨(ofTokens (init ++ [final])).last, ?_, closed_ofTokens _, fun _ => rfl⟩
    unfold ofTokens
    rw [← List.append_assoc]
    by_cases atEnd : final.kind = .endOfFile <;> simp [atEnd]

/-! ### Crossing a part of the input -/

/-- Reading the tokens, the reader comes to stand at a place of them. -/
structure ComesTo (tokens : List Token) (trackName : String) (place : Nat)
    (state : Score × Reading) : Prop where
  rounds : Rounds (Score.opened tokens trackName, ofTokens tokens) state
  stands : StandsAt (whole tokens) place state.2

section ComesTo

variable {tokens : List Token} {trackName : String} {place : Nat} {state other : Score × Reading}

theorem ComesTo.unique (comes : ComesTo tokens trackName place state)
    (others : ComesTo tokens trackName place other) : state = other := by
  have same := congrArg List.length (comes.stands.left.symm.trans others.stands.left)
  exact Rounds.eq_of_length comes.rounds others.rounds (closed_ofTokens tokens)
    (by simpa using same)

end ComesTo

/-- The rounds from one place of a list of tokens to a later one. -/
structure Crossing (tokens : List Token) (trackName : String) (first behind : Nat) where
  arrived : Score × Reading
  left : Score × Reading
  arrives : ComesTo tokens trackName first arrived
  crosses : Rounds arrived left
  leaves : ComesTo tokens trackName behind left

/-- There is one way only. -/
theorem Crossing.unique {tokens : List Token} {trackName : String} {first behind : Nat}
    (crossing other : Crossing tokens trackName first behind) : crossing = other := by
  cases crossing with
  | mk arrived left arrives crosses leaves =>
      cases other with
      | mk otherArrived otherLeft otherArrives otherCrosses otherLeaves =>
          cases arrives.unique otherArrives
          cases leaves.unique otherLeaves
          rfl

/-- No metadata, macro, track or movement is stored on the way. -/
def Crossing.StoresNothing {tokens : List Token} {trackName : String} {first behind : Nat}
    (crossing : Crossing tokens trackName first behind) : Prop :=
  crossing.left.1.metadata = crossing.arrived.1.metadata ∧
    crossing.left.1.macros = crossing.arrived.1.macros ∧
    crossing.left.1.tracks = crossing.arrived.1.tracks

/-- Then the names are the same, too. -/
theorem Crossing.StoresNothing.eq {tokens : List Token} {trackName : String} {first behind : Nat}
    {crossing : Crossing tokens trackName first behind} (nothing : crossing.StoresNothing) :
    crossing.left.1 = crossing.arrived.1 := by
  rcases nothing with ⟨metadata, macros, tracks⟩
  rcases Rounds.eq_or_size_lt crossing.crosses crossing.arrives.stands.closed with same | grows
  · exact same
  · simp [Score.size, Score.movements, metadata, macros, tracks] at grows

/-- The way through a chunk behind others. How the reader came to it does not depend on what is
behind them. -/
theorem exists_crossing (ahead : List Chunk) (part : Chunk) (behind : List Token)
    (trackName : String) :
    let front := ahead.flatMap Chunk.tokens
    let tokens := front ++ part.tokens ++ behind
    let onward := (ofTokens behind).rest
    ∃ (crossing : Crossing tokens trackName front.length (front.length + part.front.length))
      (last : Token) (reported found : List Diagnostic),
      last.kind = .endOfFile ∧ (onward ≠ [] → last = (ofTokens behind).last) ∧
      crossing.arrived.2 = ⟨part.tokens ++ onward, last, [], reported⟩ ∧
      crossing.left.2 = ⟨part.stop :: onward, last, [], reported ++ found⟩ ∧
      ∀ others otherLast,
        Rounds (Score.opened tokens trackName, ⟨front ++ others, otherLast, [], []⟩)
          (crossing.arrived.1, ⟨others, otherLast, [], reported⟩) := by
  intro front tokens onward
  have goesOn : ∀ token ∈ front ++ part.tokens, token.kind ≠ .endOfFile :=
    List.forall_mem_append.mpr ⟨forall_mem_chunks ahead, fun _ => Chunk.not_endOfFile⟩
  rcases exists_ofTokens_append (front ++ part.tokens) behind goesOn with
    ⟨last, given, closed, sameLast⟩
  have given : ofTokens tokens = ⟨front ++ part.tokens ++ onward, last, [], []⟩ := given
  rcases exists_rounds_chunks ahead (Score.opened tokens trackName) with
    ⟨arrived, reported, toPart⟩
  rcases part.exists_rounds arrived with ⟨left, found, across⟩
  have arrives : ComesTo tokens trackName front.length
      (arrived, ⟨part.tokens ++ onward, last, [], reported⟩) := by
    refine ⟨?_, ?_, closed⟩
    · rw [given, List.append_assoc]
      exact toPart _ last []
    · simp [whole, given]
  have crosses := across onward last reported
  have leaves : ComesTo tokens trackName (front.length + part.front.length)
      (left, ⟨part.stop :: onward, last, [], reported ++ found⟩) := by
    refine ⟨arrives.rounds.trans crosses, ?_, closed⟩
    simp [whole, given, Chunk.tokens, ← List.drop_drop]
  exact ⟨⟨_, _, arrives, crosses, leaves⟩, last, reported, found, closed, sameLast, rfl, rfl,
    fun others otherLast => toPart others otherLast []⟩

end Reading

open Reading (Chunk Crossing ComesTo)

namespace Score

/-- **A broken statement is contained in its line.** Behind lines that open nothing, the reader
comes to the next one; when it is done with it, it stands at the statement break that ends the
line, inside of nothing. If the line stores nothing, the score is the one that is read without
it, and so are the problems but for those of the line, which stand together between those of the
lines in front and those of what is behind. -/
theorem ofTokens_contained (ahead : List Chunk) (part : Chunk) (behind : List Token)
    (trackName : String) (trackless : ∀ token ∈ part.tokens, token.kind ≠ .track) :
    let front := ahead.flatMap Chunk.tokens
    let tokens := front ++ part.tokens ++ behind
    let stop := front.length + part.front.length
    Nonempty (Crossing tokens trackName front.length stop) ∧
      ∀ crossing : Crossing tokens trackName front.length stop,
        crossing.left.2.current = part.stop ∧ crossing.left.2.contexts = [] ∧
        (crossing.StoresNothing → ∃ (score : Score) (there : Reading)
          (found others : List Diagnostic),
          ComesTo (front ++ behind) trackName front.length (crossing.arrived.1, there) ∧
          there.diagnostics = crossing.arrived.2.diagnostics ∧
          crossing.left.2.diagnostics = there.diagnostics ++ found ∧
          ofTokens tokens trackName = .ok
            { score with diagnostics := there.diagnostics ++ found ++ others } ∧
          ofTokens (front ++ behind) trackName = .ok
            { score with diagnostics := there.diagnostics ++ others }) := by
  intro front tokens stop
  rcases Reading.exists_crossing ahead part behind trackName with
    ⟨known, last, reported, found, closed, sameLast, arrived, left, toPart⟩
  refine ⟨⟨known⟩, fun crossing => ?_⟩
  rw [crossing.unique known]
  refine ⟨by rw [left]; rfl, by rw [left], fun nothing => ?_⟩
  rcases Reading.exists_ofTokens_append front behind (Reading.forall_mem_chunks ahead) with
    ⟨lastWithout, given, closedWithout, sameLastWithout⟩
  have opening := opened_without trackless front behind trackName
  -- The score that is made behind the part is the same, and so are the problems found there.
  rcases Reading.exists_rounds_to_end known.arrived.1 (Reading.ofTokens behind).rest closed with
    ⟨filled, others, toEnd⟩
  rcases toEnd last (reported ++ found) closed fun _ => rfl with
    ⟨after, rounds, atEnd, diagnostics⟩
  rcases toEnd lastWithout reported closedWithout fun more =>
      (sameLastWithout more).trans (sameLast more).symm with
    ⟨afterWithout, roundsWithout, atEndWithout, diagnosticsWithout⟩
  have same : known.left = (known.arrived.1, ⟨part.stop :: (Reading.ofTokens behind).rest, last, [],
      reported ++ found⟩) := Prod.ext nothing.eq left
  have leaves := known.leaves.rounds
  rw [same] at leaves
  have read := ofTokens_of_rounds ((leaves.tail (part.round_stop _ _ _ _)).trans rounds) atEnd
  have toBehind : Reading.Rounds (opened (front ++ behind) trackName,
      Reading.ofTokens (front ++ behind)) (known.arrived.1,
        ⟨(Reading.ofTokens behind).rest, lastWithout, [], reported⟩) := by
    rw [given, ← opening]
    exact toPart _ lastWithout
  have readWithout := ofTokens_of_rounds (toBehind.trans roundsWithout) atEndWithout
  rw [diagnostics] at read
  rw [diagnosticsWithout] at readWithout
  refine ⟨filled, _, found, others, ⟨toBehind, ?_, closedWithout⟩, ?_, ?_, read, readWithout⟩
  · simp [Reading.whole, given]
  · rw [arrived]
  · rw [left]

end Score

namespace Reading

/-- The line `a=do`. -/
def Chunk.theme : Chunk where
  front := [⟨"a", .word, ⟨1, 1⟩⟩, ⟨"=", .equals, ⟨1, 2⟩⟩, ⟨"do", .note .ut, ⟨1, 3⟩⟩]
  stop := ⟨"\n", .newline, ⟨1, 5⟩⟩
  plain := by decide
  breaks := rfl

/-- The line `b c;`, which is no statement. -/
def Chunk.stray : Chunk where
  front := [⟨"b", .word, ⟨2, 1⟩⟩, ⟨" ", .space, ⟨2, 2⟩⟩, ⟨"c", .word, ⟨2, 3⟩⟩]
  stop := ⟨";", .semicolon, ⟨2, 4⟩⟩
  plain := by decide
  breaks := rfl

/-- The movement `piano:a`, at the end of the input. -/
def march : List Token :=
  [⟨"piano", .word, ⟨2, 5⟩⟩, ⟨":", .colon, ⟨2, 10⟩⟩, ⟨"a", .word, ⟨2, 11⟩⟩]

end Reading

open Reading (march)

theorem Score.ofTokens_contained_stray :
    (∀ token ∈ Chunk.stray.tokens, token.kind ≠ .track) ∧
    ∃ crossing : Crossing (Chunk.theme.tokens ++ Chunk.stray.tokens ++ march) defaultTrack 4 7,
      crossing.StoresNothing ∧ crossing.left.2.diagnostics.length = 1 ∧
      crossing.left.2.current = Chunk.stray.stop ∧ crossing.left.2.contexts = [] ∧
      ∃ (score : Score) (found others : List Diagnostic),
        crossing.left.2.diagnostics = crossing.arrived.2.diagnostics ++ found ∧
        ofTokens (Chunk.theme.tokens ++ Chunk.stray.tokens ++ march) defaultTrack = .ok
          { score with diagnostics := crossing.arrived.2.diagnostics ++ found ++ others } ∧
        ofTokens (Chunk.theme.tokens ++ march) defaultTrack = .ok
          { score with diagnostics := crossing.arrived.2.diagnostics ++ others } := by
  have trackless : ∀ token ∈ Chunk.stray.tokens, token.kind ≠ .track := by decide
  have crossed : ∃ crossing : Crossing (Chunk.theme.tokens ++ Chunk.stray.tokens ++ march)
      defaultTrack 4 7, crossing.StoresNothing ∧ crossing.left.2.diagnostics.length = 1 := by
    have begins : ∃ arrived, ComesTo (Chunk.theme.tokens ++ Chunk.stray.tokens ++ march)
        defaultTrack 4 arrived ∧ ∃ left, Reading.Round arrived left ∧
          Reading.StandsAt (Reading.whole (Chunk.theme.tokens ++ Chunk.stray.tokens ++ march)) 7
            left.2 ∧ left.1 = arrived.1 ∧ left.2.diagnostics.length = 1 := by
      refine ⟨_, ⟨.head (.read rfl (by decide) rfl) (.single (.skip rfl)), ⟨rfl, rfl⟩⟩, ?_⟩
      exact ⟨_, .read rfl (by decide) rfl, ⟨rfl, rfl⟩, rfl, rfl⟩
    rcases begins with ⟨arrived, arrives, left, round, leaves, same, once⟩
    exact ⟨⟨arrived, left, arrives, .single round, arrives.rounds.tail round, leaves⟩,
      by simp [Crossing.StoresNothing, same], once⟩
  rcases crossed with ⟨crossing, nothing, once⟩
  rcases ofTokens_contained [Chunk.theme] Chunk.stray march defaultTrack trackless with ⟨_, law⟩
  rcases law crossing with ⟨current, outside, omitted⟩
  rcases omitted nothing with ⟨score, there, found, others, _, same, left, read, without⟩
  rw [same] at left read without
  exact ⟨trackless, crossing, nothing, once, current, outside, score, found, others, left, read,
    without⟩

end Solfege
