import Solfege.Proofs.Reading.Consuming

/-!
Contract: a loop of the grammar is its round, and then the loop again.

Owns:
- the loops that skip tokens, which run on the tokens that are left;
- the loops with a bound, which are their round and then the loop with the bound below.

Does not own: that the bounds are nowhere used up.
-/

namespace Solfege.Reading

/-! ### A loop is what its rounds do -/

section Repeating

variable {before : Reading}

theorem skip_of_passes {test : Token.Kind → Bool} (closed : before.Closed)
    (more : before.current.kind ≠ .endOfFile) (passes : test before.current.kind = true) :
    before.skip test = before.advanced.skip test := by
  obtain ⟨tail, rest⟩ := exists_cons_of_current closed more
  simp [skip, advanced, rest, passes]

theorem skipping_repeats {test : Token.Kind → Bool} (stops : test .endOfFile = false)
    (nothing : Unit) (closed : before.Closed) :
    skipping test before =
      (skipRound test nothing >>= RoundEnd.follow fun _ => skipping test) before := by
  rw [skipRound, bind_assoc, peek_then]
  by_cases passes : test before.current.kind = true
  · have more : before.current.kind ≠ .endOfFile := by
      intro atEnd
      rw [atEnd, stops] at passes
      contradiction
    rw [if_pos passes]
    exact congrArg (EStateM.Result.ok ()) (skip_of_passes closed more passes)
  · rw [if_neg passes]
    exact congrArg (EStateM.Result.ok ()) (skip_of_current (by simpa using passes))

theorem resumption_repeats (test : Token.Kind → Bool) (depth : Nat) (closed : before.Closed) :
    resumeInside test depth before =
      (resumptionRound test depth >>= RoundEnd.follow (resumeInside test)) before := by
  rw [resumptionRound, bind_assoc, peek_then]
  obtain ⟨rest, last, contexts, diagnostics⟩ := before
  cases rest with
  | nil =>
      have atEnd : last.kind = .endOfFile := closed
      rw [if_pos (by simp [current, atEnd])]
      rfl
  | cons first tail =>
      have here : current ⟨first :: tail, last, contexts, diagnostics⟩ = first := rfl
      rw [here]
      unfold resumeInside
      rw [resumption]
      by_cases stops : (decide (first.kind = .endOfFile) || (depth = 0 && test first.kind)) = true
      · rw [if_pos stops, if_pos stops]
        rfl
      · rw [if_neg stops, if_neg stops]
        cases first.kind <;> rfl

theorem accidentalsBehind_of_passes (semitones : Int) (closed : before.Closed)
    (passes : isAccidental before.current.kind = true) :
    accidentalsBehind semitones before =
      accidentalsBehind (if before.current.kind = .plus then semitones + 1 else semitones - 1)
        before.advanced := by
  have more : before.current.kind ≠ .endOfFile := by
    intro atEnd
    rw [atEnd] at passes
    contradiction
  obtain ⟨tail, rest⟩ := exists_cons_of_current closed more
  have behind : before.advanced.rest = tail := by
    unfold advanced
    rw [rest]
    rfl
  unfold accidentalsBehind
  rw [skip_of_passes closed more passes, behind, rest]
  simp only [List.takeWhile_cons, passes, if_true, List.foldl_cons]

theorem accidentals_repeats (semitones : Int) (closed : before.Closed) :
    accidentalsBehind semitones before =
      (accidentalsRound semitones >>= RoundEnd.follow accidentalsBehind) before := by
  cases passes : isAccidental before.current.kind with
  | true =>
      rw [accidentalsBehind_of_passes semitones closed passes, accidentalsRound, bind_assoc,
        peek_then]
      cases kind : before.current.kind with
      | plus => rfl
      | dash => rfl
      | _ => rw [kind] at passes; contradiction
  | false =>
      have left : accidentalsRound semitones before = .ok (.left semitones) before := by
        rw [accidentalsRound, peek_then]
        cases kind : before.current.kind with
        | plus => rw [kind] at passes; contradiction
        | dash => rw [kind] at passes; contradiction
        | _ => rfl
      have nothing : (before.rest.takeWhile fun token => isAccidental token.kind) = [] := by
        cases rest : before.rest with
        | nil => rfl
        | cons first tail =>
            rw [current_cons rest] at passes
            exact List.takeWhile_cons_of_neg (by simp [passes])
      rw [bind_of_ok left]
      unfold accidentalsBehind
      rw [nothing, skip_of_current passes]
      rfl

/-! The loops with a bound are their round and then the loop with the bound below. -/

theorem argumentsFrom_succ (inner : Step Expression) (steps : Nat) (found : List Expression) :
    argumentsFrom inner (steps + 1) found =
      argumentsRound inner found >>= RoundEnd.follow (argumentsFrom inner steps) := by
  unfold argumentsRound
  simp only [argumentsFrom, bind_assoc]
  refine bind_congr fun _ => bind_congr fun atEnd => ?_
  cases atEnd with
  | true => rfl
  | false =>
      simp only [Bool.false_eq_true, if_false, bind_assoc]
      refine bind_congr fun argument => bind_congr fun _ => bind_congr fun behind => ?_
      cases behind.kind with
      | comma =>
          simp only [bind_assoc]
          refine bind_congr fun _ => bind_congr fun _ => bind_congr fun trailing => ?_
          cases trailing <;> rfl
      | _ => rfl

theorem behindParameter_follow (steps : Nat) (parameters : List String) :
    behindParameter parameters >>= RoundEnd.follow (parametersFrom steps) =
      behindParameters (parametersFrom steps) parameters := by
  unfold behindParameter behindParameters
  rw [bind_assoc]
  refine bind_congr fun _ => ?_
  rw [bind_assoc]
  refine bind_congr fun comma => ?_
  cases comma with
  | false =>
      simp only [Bool.false_eq_true, if_false, bind_assoc]
      rfl
  | true =>
      simp only [if_true, bind_assoc]
      refine bind_congr fun _ => bind_congr fun _ => bind_congr fun trailing => ?_
      cases trailing <;> rfl

theorem parametersFrom_succ (steps : Nat) (found : List String) :
    parametersFrom (steps + 1) found =
      parametersRound found >>= RoundEnd.follow (parametersFrom steps) := by
  unfold parametersRound
  rw [parametersFrom_eq, bind_assoc]
  refine bind_congr fun _ => ?_
  rw [bind_assoc]
  refine bind_congr fun written => ?_
  cases found.contains written.text with
  | true => simp only [if_true, bind_assoc, behindParameter_follow]
  | false => simp only [Bool.false_eq_true, if_false, behindParameter_follow]

theorem elementsFrom_succ (layout : Layout) (inner : Step Expression) (steps : Nat)
    (carried : Bool × List Expression) :
    elementsFrom layout inner (steps + 1) carried.1 carried.2 =
      elementsRound layout inner carried >>=
        RoundEnd.follow fun carried => elementsFrom layout inner steps carried.1 carried.2 := by
  obtain ⟨marked, found⟩ := carried
  unfold elementsRound
  simp only [bind_assoc, elementsFrom]
  refine bind_congr fun _ => bind_congr fun first => ?_
  split
  · cases marked <;> simp [RoundEnd.follow]
  · rw [bind_assoc]
    refine bind_congr fun result => ?_
    cases result with
    | ok element => cases marked <;> simp [RoundEnd.follow]
    | error diagnostic => simp [RoundEnd.follow]

theorem statementsFrom_succ (steps : Nat) (score : Score) :
    statementsFrom (steps + 1) score =
      statementsRound score >>= RoundEnd.follow (statementsFrom steps) := by
  unfold statementsRound
  simp only [statementsFrom, bind_assoc]
  refine bind_congr fun _ => bind_congr fun atEnd => ?_
  cases atEnd with
  | true => rfl
  | false => simp [RoundEnd.follow]

end Repeating

end Solfege.Reading
