import Solfege.Proofs.Reading.Conduct

/-!
Contract: loops that leave fewer and fewer tokens.

Owns:
- steps that read on, and do not stop at a fault of the reader;
- rounds of a loop, which read a token or are the last ones;
- the proof that a loop with a bound does what its rounds do one after the other, whatever the
  bound is, and is the only one that does so.

Does not own: the loops of the grammar.
-/

namespace Solfege.Reading

/-! ### Reading on -/

/-- The reader is at the same place in the same input, or further on. -/
structure Onward (before after : Reading) : Prop where
  rest : after.rest <:+ before.rest
  last : after.last = before.last

theorem Onward.trans {first second third : Reading} (start : Onward first second)
    (onward : Onward second third) : Onward first third :=
  ⟨onward.rest.trans start.rest, onward.last.trans start.last⟩

theorem Follows.onward {before after : Reading} (follows : Follows before after) :
    Onward before after :=
  ⟨follows.rest, follows.last⟩

/-- From a state on, the step reads on, and no fault of the reader stops it. -/
def MovesOn {α : Type} (step : Step α) (before : Reading) : Prop :=
  match step before with
  | .ok _ after | .error (.recoverable _) after => Onward before after
  | .error (.fatal _) _ => False

theorem Orderly.movesOn {α : Type} {step : Step α} {before : Reading}
    {made : α → List Token → Prop} (orderly : Orderly step before made) :
    MovesOn step before := by
  unfold MovesOn
  split
  · exact (orderly.of_ok ‹_›).1.onward
  · exact (orderly.of_recoverable ‹_›).onward
  · exact orderly.not_fatal ‹_›

/-! ### Rounds -/

/-- How a round of a loop ends: the loop comes round again with what it carries, or it is left
with what it made. -/
inductive RoundEnd (σ α : Type) where
  | again (carried : σ)
  | left (made : α)

/-- Goes on behind a round. -/
def RoundEnd.follow {σ α : Type} (loop : σ → Step α) : RoundEnd σ α → Step α
  | again carried => loop carried
  | left made => pure made

/-- From a state on, the round reads on, however it ends. If the loop comes round again, a token
was read. -/
def Consumes {σ α : Type} (round : Step (RoundEnd σ α)) (before : Reading) : Prop :=
  match round before with
  | .ok (.again _) after => Onward before after ∧ after.rest.length < before.rest.length
  | .ok (.left _) after | .error _ after => Onward before after

/-- Wherever less tokens than the bound are left, a round reads a token or is the last one, and
the loop does what the round does and then what the loop does. -/
structure Descends {σ α : Type} (bound : Nat) (loop : σ → Step α)
    (round : σ → Step (RoundEnd σ α)) : Prop where
  consumes : ∀ carried (before : Reading), before.Closed → before.rest.length < bound →
    Consumes (round carried) before
  repeats : ∀ carried (before : Reading), before.Closed → before.rest.length < bound →
    loop carried before = (round carried >>= RoundEnd.follow loop) before

section Rounds

variable {σ α : Type} {bound : Nat} {round : σ → Step (RoundEnd σ α)}

theorem Orderly.consumes {step : Step (RoundEnd σ α)} {before : Reading}
    (orderly : Orderly step before fun ended rest =>
      ∀ carried, ended = .again carried → rest.length < before.rest.length) :
    Consumes step before := by
  unfold Consumes
  split
  · exact ⟨(orderly.of_ok ‹_›).1.onward, (orderly.of_ok ‹_›).2 _ rfl⟩
  · exact (orderly.of_ok ‹_›).1.onward
  · rename_i halt after result
    cases halt with
    | recoverable diagnostic => exact (orderly.of_recoverable result).onward
    | fatal diagnostic => exact absurd result orderly.not_fatal

/-- What is done behind a round makes a difference only where a token was read. -/
theorem Consumes.bind_congr {step : Step (RoundEnd σ α)} {before : Reading}
    (consumes : Consumes step before) {loop other : σ → Step α}
    (same : ∀ carried after, Onward before after → after.rest.length < before.rest.length →
      loop carried after = other carried after) :
    (step >>= RoundEnd.follow loop) before = (step >>= RoundEnd.follow other) before := by
  unfold Consumes at consumes
  cases result : step before with
  | error halt after => rw [bind_of_error result, bind_of_error result]
  | ok ended after =>
      rw [bind_of_ok result, bind_of_ok result]
      rw [result] at consumes
      cases ended with
      | again carried => exact same carried after consumes.1 consumes.2
      | left made => rfl

/-- A loop that descends is the only one that does so with these rounds. -/
theorem Descends.unique {loop other : σ → Step α} (descends : Descends bound loop round)
    (others : Descends bound other round) (carried : σ) {before : Reading}
    (closed : before.Closed) (fits : before.rest.length < bound) :
    loop carried before = other carried before := by
  induction left : before.rest.length using Nat.strongRecOn generalizing carried before with
  | ind length inductionHypothesis =>
      rw [descends.repeats carried before closed fits, others.repeats carried before closed fits]
      refine (descends.consumes carried before closed fits).bind_congr
        fun more after onward fewer => ?_
      exact inductionHypothesis _ (by omega) more (closed.of_last onward.last) (by omega) rfl

section Family

variable (family : Nat → σ → Step α)
variable (unfolds : ∀ steps carried,
  family (steps + 1) carried = round carried >>= RoundEnd.follow (family steps))
variable (consumes : ∀ carried (before : Reading), before.Closed → before.rest.length < bound →
  Consumes (round carried) before)

include unfolds consumes

/-- Two bounds above the number of tokens that are left make no difference to a loop. -/
theorem family_congr {steps other : Nat} (carried : σ) {before : Reading}
    (closed : before.Closed) (fits : before.rest.length < bound)
    (enough : before.rest.length < steps) (enoughOther : before.rest.length < other) :
    family steps carried before = family other carried before := by
  induction steps generalizing other carried before with
  | zero => contradiction
  | succ steps inductionHypothesis =>
      obtain ⟨fewer, rfl⟩ := Nat.exists_eq_succ_of_ne_zero (Nat.ne_of_gt
        (Nat.lt_of_le_of_lt (Nat.zero_le _) enoughOther))
      rw [unfolds, unfolds]
      refine (consumes carried before closed fits).bind_congr fun more after onward read => ?_
      exact inductionHypothesis more (closed.of_last onward.last) (by omega) (by omega) (by omega)

/-- A loop that is bounded by the number of tokens that are left descends. -/
theorem descends_of_family :
    Descends bound (fun carried reading => family (reading.rest.length + 1) carried reading)
      round where
  consumes := consumes
  repeats carried before closed fits := by
    refine (congrFun (unfolds _ carried) before).trans ?_
    refine (consumes carried before closed fits).bind_congr fun more after onward read => ?_
    exact family_congr family unfolds consumes more (closed.of_last onward.last) (by omega) read
      (Nat.lt_succ_self _)

end Family

end Rounds

end Solfege.Reading
