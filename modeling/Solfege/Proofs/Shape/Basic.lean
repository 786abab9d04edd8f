import Solfege.Score.Basic

/-!
Contract: the shape of expressions as they are read.

Owns:
- where in a list postfix signs and placeholders may stand;
- the shape of each sort of expression: what can be held, how a chord is made up, which
  numbers are not zero, and what may be an argument.

Does not own: the proof that reading keeps to this shape.
-/

namespace Solfege

/-! ### Numbers and names -/

/-- The note has no duration with a denominator of zero. -/
def Note.Timed (note : Note) : Prop :=
  ∀ duration, note.duration = some duration → duration.denominator ≠ 0

/-- The duration that a member of a chord has of its own. -/
def ChordMember.duration? : ChordMember → Option Duration
  | .note written => written.duration
  | .reference _ _ => none

/-- The member has no duration with a denominator of zero. -/
def ChordMember.Timed (member : ChordMember) : Prop :=
  ∀ duration, member.duration? = some duration → duration.denominator ≠ 0

/-- No denominator and no unit is zero, and no tone is that of a rest. -/
def Directive.Meaningful : Directive → Prop
  | .duration value => value.denominator ≠ 0
  | .tone _ name => name ≠ .rest
  | .measure _ unit => unit ≠ 0
  | _ => True

namespace Expression

/-! ### Places in a list -/

def isPlaceholder : Expression → Bool
  | .placeholder _ => true
  | _ => false

/-- Whether an expression is a sign that refers to what stands in front of it. -/
def isPostfix : Expression → Bool
  | .repetition _ _ => true
  | .release _ => true
  | _ => false

/-- Every postfix sign of a list has an expression in front of it that could be read, and
a placeholder is the last element. -/
def Arranged (items : List Expression) : Prop :=
  ∀ front item behind, items = front ++ item :: behind →
    (item.isPostfix = true → ∃ earlier ∈ front, earlier.isPlaceholder = false) ∧
      (item.isPlaceholder = true → behind = [])

theorem arranged_nil : Arranged [] := by
  intro front item behind split
  simp at split

/-- An element may join a list without placeholders. A postfix sign needs something to
stand behind. -/
theorem Arranged.concat {items : List Expression} {element : Expression}
    (arranged : Arranged items) (readable : ∀ item ∈ items, item.isPlaceholder = false)
    (opened : element.isPostfix = true → items ≠ []) : Arranged (items ++ [element]) := by
  intro front item behind split
  rcases List.eq_nil_or_concat behind with none | ⟨others, final, rfl⟩
  · subst none
    obtain ⟨rfl, same⟩ := List.append_inj' split rfl
    obtain rfl := List.singleton_inj.mp same
    refine ⟨fun isPostfix => ?_, fun _ => rfl⟩
    obtain ⟨earlier, member⟩ := List.exists_mem_of_ne_nil items (opened isPostfix)
    exact ⟨earlier, member, readable earlier member⟩
  · rw [List.concat_eq_append, ← List.cons_append, ← List.append_assoc] at split
    obtain ⟨rfl, _⟩ := List.append_inj' split rfl
    refine ⟨(arranged front item others rfl).1, fun isPlaceholder => ?_⟩
    have readableItem := readable item (by simp)
    rw [readableItem] at isPlaceholder
    contradiction

/-! ### Expressions -/

/-- What a parenthesis can hold. -/
inductive Holdable : Expression → Prop where
  | note (written : Note) : Holdable (.note written)
  | chord (members : List ChordMember) (token : Token) : Holdable (.chord members token)
  | reference (name : String) (token : Token) : Holdable (.reference name token)
  | call (name : String) (arguments : List Expression) (token : Token) :
      Holdable (.call name arguments token)

/-- The expression and all its parts have the shape in which expressions are read. -/
inductive Formed : Expression → Prop where
  | note {written : Note} (timed : written.Timed) : Formed (.note written)
  | chord {members : List ChordMember} (token : Token) (several : 2 ≤ members.length)
      (timed : ∀ member ∈ members, member.Timed)
      (undelayed : ∀ member ∈ members.dropLast, member.duration? = none) :
      Formed (.chord members token)
  | reference (name : String) (token : Token) : Formed (.reference name token)
  | call {arguments : List Expression} (name : String) (token : Token)
      (formed : ∀ argument ∈ arguments, Formed argument)
      (plain : ∀ argument ∈ arguments, argument.isPostfix = false)
      (readable : (∃ place, arguments = [.placeholder place]) ∨
        ∀ argument ∈ arguments, argument.isPlaceholder = false) :
      Formed (.call name arguments token)
  | repetition (count : Nat) (token : Token) : Formed (.repetition count token)
  | hold {inner : Expression} (token : Token) (holdable : Holdable inner)
      (formed : Formed inner) : Formed (.hold inner token)
  | release (token : Token) : Formed (.release token)
  | group {items : List Expression} (token : Token) (arranged : Arranged items)
      (formed : ∀ item ∈ items, Formed item) : Formed (.group items token)
  | directive {directive : Directive} (token : Token) (meaningful : directive.Meaningful) :
      Formed (.directive directive token)
  | bar (token : Token) : Formed (.bar token)
  | placeholder (token : Token) : Formed (.placeholder token)

/-- The list is that of a body or of a group as it is read. -/
def FormedList (items : List Expression) : Prop :=
  Arranged items ∧ ∀ item ∈ items, Formed item

end Expression

/-- The bodies of all macros and movements are lists as they are read. -/
def Score.Formed (score : Score) : Prop :=
  (∀ definition ∈ score.macros, Expression.FormedList definition.body) ∧
    ∀ movement ∈ score.movements, Expression.FormedList movement.expressions

end Solfege
