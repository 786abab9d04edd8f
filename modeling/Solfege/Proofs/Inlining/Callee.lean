import Solfege.Expansion.Score

/-!
Contract: what a use of a macro refers to.

Owns:
- the macro that a name stands for, without a place to report that there is none;
- when a use is accepted: its name stands for a macro that is not being inlined and takes
  as many arguments as are given.

Does not own: the problem that a refused use is.
-/

namespace Solfege

/-- The macro that a name stands for. -/
def Surroundings.macro? (around : Surroundings) (name : String) : Option Macro :=
  (around.names.macroIndex? name).bind (Score.macroAt? around.macros)

theorem Score.mem_of_macroAt? {macros : List Macro} {index : Nat} {definition : Macro}
    (found : Score.macroAt? macros index = some definition) : definition ∈ macros := by
  cases index with
  | zero => contradiction
  | succ index => exact List.mem_of_getElem? found

theorem Score.mem_of_macro? {score : Score} {name : String} {definition : Macro}
    (found : score.macro? name = some definition) : definition ∈ score.macros := by
  obtain ⟨index, _, found⟩ := Option.bind_eq_some_iff.mp found
  exact Score.mem_of_macroAt? found

theorem Surroundings.mem_of_macro? {around : Surroundings} {name : String}
    {definition : Macro} (found : around.macro? name = some definition) :
    definition ∈ around.macros := by
  obtain ⟨index, _, found⟩ := Option.bind_eq_some_iff.mp found
  exact Score.mem_of_macroAt? found

namespace Inlining

theorem macroNamed_eq_ok_iff {around : Surroundings} {name : String} (token : Token)
    {definition : Macro} :
    macroNamed around name token = .ok definition ↔ around.macro? name = some definition := by
  unfold macroNamed Surroundings.macro? NameTable.macroIndex?
  cases around.names.get? name with
  | none => simp
  | some entry =>
      cases entry with
      | macroAt index =>
          cases found : Score.macroAt? around.macros index with
          | none => simp [found]
          | some other => simp [found]
      | movementAt track movement => simp

theorem callee_eq_ok_iff {around : Surroundings} {active : List String} {name : String}
    {given : Nat} {token : Token} {definition : Macro} :
    callee around active name given token = .ok definition ↔
      around.macro? name = some definition ∧ definition.name ∉ active ∧
        given = definition.parameters.length := by
  rw [← macroNamed_eq_ok_iff token]
  unfold callee
  cases macroNamed around name token with
  | error diagnostic => simp
  | ok other =>
      dsimp only
      by_cases running : other.name ∈ active
      · rw [if_pos (List.contains_iff_mem.mpr running)]
        constructor
        · intro impossible
          contradiction
        · rintro ⟨same, fresh, _⟩
          rw [Except.ok.inj same] at running
          exact absurd running fresh
      · rw [if_neg (mt List.contains_iff_mem.mp running)]
        by_cases arity : given = other.parameters.length
        · rw [if_neg (not_not_intro arity)]
          constructor
          · intro same
            rw [← Except.ok.inj same]
            exact ⟨rfl, running, arity⟩
          · exact And.left
        · rw [if_pos arity]
          constructor
          · intro impossible
            contradiction
          · rintro ⟨same, _, arityHere⟩
            rw [← Except.ok.inj same] at arityHere
            exact absurd arityHere arity

end Inlining

end Solfege
