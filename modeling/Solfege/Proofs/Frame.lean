import Solfege.Proofs.FixedPoint.Score
import Solfege.Proofs.Names.Expansion
import Solfege.Proofs.Outline

/-!
Contract: expansion touches nothing but the lists of expressions that it is for.

Owns:
- the frame of a score, which is everything in it but the lists of its macros and movements;
- the proof that each pass and all of them keep the frame, with problems or without;
- what inlining leaves in a movement, also where it failed or stopped half-way: expressions
  that stand for themselves.

Does not own: what a pass makes of a list.
-/

namespace Solfege

open Expression (Sounding Settled)

/-! ### Frames -/

/-- What a macro is but for its body. -/
structure Signature where
  name : String
  parameters : List String
  token : Token
deriving DecidableEq, Repr

def Macro.signature (definition : Macro) : Signature :=
  ⟨definition.name, definition.parameters, definition.token⟩

namespace Score

/-- The scores differ at most in the bodies of their macros and in the expressions of their
movements. -/
structure SameFrame (before after : Score) : Prop where
  metadata : after.metadata = before.metadata
  names : after.names = before.names
  diagnostics : after.diagnostics = before.diagnostics
  signatures : after.macros.map Macro.signature = before.macros.map Macro.signature
  outline : after.outline = before.outline

theorem SameFrame.trans {first second third : Score} (start : SameFrame first second)
    (rest : SameFrame second third) : SameFrame first third where
  metadata := rest.metadata.trans start.metadata
  names := rest.names.trans start.names
  diagnostics := rest.diagnostics.trans start.diagnostics
  signatures := rest.signatures.trans start.signatures
  outline := rest.outline.trans start.outline

/-- A pass over the lists of a score keeps its frame. -/
theorem sameFrame_after (score : Score) (pass : Pass) : score.SameFrame (score.after pass).1 := by
  cases pass with
  | repetitions limit =>
      refine ⟨rfl, rfl, rfl, ?_, outline_unroll limit score⟩
      change (score.unroll limit).1.macros.map Macro.signature = _
      rw [unroll_macros, List.map_map]
      rfl
  | groups => exact ⟨rfl, rfl, rfl, List.map_map, outline_flatten score⟩
  | macros limit => exact ⟨rfl, rfl, rfl, rfl, outline_inlineMacros limit score⟩

theorem sameFrame_expand (limit : Nat) (score : Score) :
    score.SameFrame (score.expand limit).1 := by
  have unrolled := score.sameFrame_after (.repetitions limit)
  unfold expand
  dsimp only
  split
  · have flattened := (score.unroll limit).1.sameFrame_after .groups
    have inlined := (score.unroll limit).1.flatten.sameFrame_after (.macros limit)
    exact unrolled.trans (flattened.trans inlined)
  · exact unrolled

end Score

/-! ### What inlining leaves -/

theorem Expression.Sounding.isTerminal {expression : Expression} (sounding : Sounding expression) :
    expression.isTerminal = true := by
  cases sounding with
  | note written => rfl
  | chord members token notes => exact notes

theorem Expression.Settled.isTerminal {expression : Expression} (settled : Settled expression) :
    expression.isTerminal = true := by
  cases settled with
  | placeholder token => rfl
  | playable playable =>
      cases playable with
      | sounding sounding => exact sounding.isTerminal
      | hold sounding token => exact sounding.isTerminal
      | _ => rfl

/-- A settled hold is one of a note or a chord. -/
theorem Expression.Settled.held {inner : Expression} {token : Token}
    (settled : Settled (.hold inner token)) :
    (∃ written, inner = .note written) ∨ ∃ members place, inner = .chord members place := by
  rcases settled with ⟨⟨⟨⟩⟩ | ⟨sounding, _⟩⟩
  cases sounding with
  | note written => exact .inl ⟨written, rfl⟩
  | chord members place _ => exact .inr ⟨members, place, rfl⟩

/-! ### Main result -/

/-- **Passes touch what they are for.** Each pass, and all of them one after the other, with
problems or without, leave everything of a score as it was but the bodies of its macros and
the expressions of its movements: the metadata, the names and the diagnostics, what the macros
are called, with which parameters and at which token, the tracks in their order and the
headings of their movements in theirs. The inlining of macros leaves the macros altogether as
they were. And what it leaves in a movement, also where it had problems, are expressions that
stand for themselves, among which a hold is one of a note or a chord. -/
theorem expansion_keeps_frame (score : Score) :
    (∀ pass, score.SameFrame (score.after pass).1) ∧
      (∀ limit, score.SameFrame (score.expand limit).1) ∧
      ∀ limit, (score.inlineMacros limit).1.macros = score.macros ∧
        ∀ movement ∈ (score.inlineMacros limit).1.movements,
          ∀ expression ∈ movement.expressions, expression.isTerminal = true ∧
            ∀ inner token, expression = .hold inner token →
              (∃ written, inner = .note written) ∨
                ∃ members place, inner = .chord members place := by
  refine ⟨score.sameFrame_after, fun limit => score.sameFrame_expand limit,
    fun limit => ⟨rfl, fun movement member expression inMovement => ?_⟩⟩
  have settled := Score.settled_of_mem_inlineMacros member expression inMovement
  refine ⟨settled.isTerminal, fun inner token isHold => ?_⟩
  subst isHold
  exact settled.held

namespace Interrupted

/-- The token of everything in this score. -/
def token : Token := ⟨"x", .word, ⟨1, 1⟩⟩

/-- A note of the given name. -/
def sounding (name : Syllable) : Expression := .note ⟨name, 0, none, none, token⟩

/-- A name. -/
def named (name : String) : Expression := .reference name token

/-- The movement `(one (two three two`, of which the first hold is one of a note, the second
is one of two notes, and the name `three` is unknown. -/
def movement : Movement :=
  ⟨"piano", none, [.hold (named "one") token, .hold (named "two") token, named "three",
    named "two"], token⟩

/-- The score with this movement and the macros `one = mi` and `two = do re`. -/
def score : Score where
  metadata := [.title "interrupted"]
  macros := [⟨"one", [], [sounding .mi], token⟩, ⟨"two", [], [sounding .ut, sounding .re], token⟩]
  tracks := [⟨"global", [movement]⟩]
  names := ⟨[("one", .macroAt 1), ("piano", .movementAt 1 1), ("two", .macroAt 2)]⟩
  diagnostics := []

end Interrupted

/-- The budget of this score is spent within the second macro, behind two other problems. -/
theorem expansion_keeps_frame_interrupted :
    (Interrupted.score.inlineMacros 4).2.length = 3 ∧
      Interrupted.score.SameFrame (Interrupted.score.inlineMacros 4).1 ∧
      ∃ left ∈ (Interrupted.score.inlineMacros 4).1.movements,
        left.expressions = [.hold (Interrupted.sounding .mi) Interrupted.token] ∧
          (Expression.hold (Interrupted.sounding .mi) Interrupted.token).isTerminal = true ∧
          ((∃ written, Interrupted.sounding .mi = .note written) ∨
            ∃ members place, Interrupted.sounding .mi = .chord members place) := by
  obtain ⟨passes, _, inlined⟩ := expansion_keeps_frame Interrupted.score
  have member : ⟨"piano", none, [.hold (Interrupted.sounding .mi) Interrupted.token],
      Interrupted.token⟩ ∈ (Interrupted.score.inlineMacros 4).1.movements :=
    List.mem_cons_self
  obtain ⟨terminal, held⟩ := (inlined 4).2 _ member _ (List.mem_singleton_self _)
  exact ⟨rfl, passes (.macros 4), _, member, rfl, terminal, held _ _ rfl⟩

end Solfege
