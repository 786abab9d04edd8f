import Solfege.Proofs.Shape.Score
import Solfege.Proofs.Stages

/-!
Contract: the parts of an expression, and the lists of a score.

Owns:
- the parts of an expression at any depth: items of groups, arguments of calls and what is
  held;
- the lists of a body and of a score: the bodies themselves and the items of every group;
- the proof that parts of what was read have the shape in which expressions are read.

Does not own: what expansion makes of the parts.
-/

namespace Solfege

namespace Expression

/-- An expression is a part of another one, at any depth. -/
inductive Part : Expression → Expression → Prop where
  | itself (expression : Expression) : Part expression expression
  | item {part item : Expression} {items : List Expression} (token : Token)
      (member : item ∈ items) (inside : Part part item) : Part part (.group items token)
  | argument {part argument : Expression} {arguments : List Expression} (name : String)
      (token : Token) (member : argument ∈ arguments) (inside : Part part argument) :
      Part part (.call name arguments token)
  | held {part inner : Expression} (token : Token) (inside : Part part inner) :
      Part part (.hold inner token)

/-- The parts of a formed expression are formed. -/
theorem Part.formed {part whole : Expression} (isPart : Part part whole)
    (formed : Formed whole) : Formed part := by
  induction isPart with
  | itself => exact formed
  | item token member inside inductionHypothesis =>
      cases formed with
      | group _ _ each => exact inductionHypothesis (each _ member)
  | argument name token member inside inductionHypothesis =>
      cases formed with
      | call _ _ each _ _ => exact inductionHypothesis (each _ member)
  | held token inside inductionHypothesis =>
      cases formed with
      | hold _ _ here => exact inductionHypothesis here

/-- A list is a body itself, or the items of a group in it at any depth. -/
inductive ListWithin (body : List Expression) : List Expression → Prop where
  | itself : ListWithin body body
  | items {item : Expression} {items : List Expression} (token : Token) (member : item ∈ body)
      (inside : Part (.group items token) item) : ListWithin body items

/-- Every list of a formed body is arranged. -/
theorem ListWithin.arranged {body list : List Expression} (within : ListWithin body list)
    (formed : FormedList body) : Arranged list := by
  cases within with
  | itself => exact formed.1
  | items token member inside =>
      cases inside.formed (formed.2 _ member) with
      | group _ arranged _ => exact arranged

end Expression

open Expression

namespace Score

/-- A list is the body of a macro or a movement, or the items of a group in one. -/
def HasList (score : Score) (list : List Expression) : Prop :=
  (∃ definition ∈ score.macros, ListWithin definition.body list) ∨
    ∃ movement ∈ score.movements, ListWithin movement.expressions list

theorem Formed.arranged_of_hasList {score : Score} (formed : score.Formed)
    {list : List Expression} (hasList : score.HasList list) : Arranged list := by
  rcases hasList with ⟨definition, member, within⟩ | ⟨movement, member, within⟩
  · exact within.arranged (formed.1 definition member)
  · exact within.arranged (formed.2 movement member)

theorem formed_of_ofTokens {tokens : List Token} {trackName : String} {score : Score}
    (wasRead : ofTokens tokens trackName = .ok score) : score.Formed := by
  obtain ⟨statements, diagnostics, read, _, formed⟩ := exists_ofTokens_eq_ok tokens trackName
  rw [read] at wasRead
  obtain rfl := Except.ok.inj wasRead
  exact (formed_opened tokens trackName).foldl formed

end Score

/-- What is read from a source has the shape in which expressions are read. -/
theorem Compiler.formed_of_read {settings : Settings} {source : String} {score : Score}
    (wasRead : read settings source = .ok score) : score.Formed := by
  obtain ⟨tokens, _, ofTokens⟩ := exists_tokens_of_read wasRead
  exact Score.formed_of_ofTokens ofTokens

end Solfege
