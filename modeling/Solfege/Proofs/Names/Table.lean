import Solfege.Score.NameTable

/-!
Contract: what a table of names answers after a name was defined.

Owns:
- the names that a list gives something to, told by looking them up;
- the names that a table lists, which are those that it has a meaning for;
- the meaning of every name behind one more definition.

Does not own: the order of the names.
-/

namespace Solfege

theorem mem_map_fst_iff_lookup_ne_none {α : Type} {entries : List (String × α)}
    {name : String} : name ∈ entries.map Prod.fst ↔ entries.lookup name ≠ none := by
  rw [Option.ne_none_iff_isSome, List.lookup_isSome_iff, List.mem_map]
  exact exists_congr fun entry => and_congr_right fun _ => eq_comm.trans beq_iff_eq.symm

namespace NameTable

/-! ### Placing a name -/

theorem lookup_cons_eq_ite (first : String × Entry) (rest : List (String × Entry))
    (name : String) :
    (first :: rest).lookup name = if name = first.1 then some first.2 else rest.lookup name := by
  rw [List.lookup_cons]
  by_cases same : name = first.1
  · rw [if_pos same, beq_iff_eq.mpr same]
  · rw [if_neg same, beq_eq_false_iff_ne.mpr same]

theorem lookup_place {entries : List (String × Entry)} {name : String} (entry : Entry)
    (free : entries.lookup name = none) (other : String) :
    (place name entry entries).lookup other =
      if other = name then some entry else entries.lookup other := by
  induction entries with
  | nil => exact lookup_cons_eq_ite (name, entry) [] other
  | cons first rest inductionHypothesis =>
      rw [lookup_cons_eq_ite] at free
      have different : name ≠ first.1 := by
        intro same
        rw [if_pos same] at free
        contradiction
      rw [if_neg different] at free
      rw [place]
      split
      · exact lookup_cons_eq_ite (name, entry) _ other
      · rw [lookup_cons_eq_ite, inductionHypothesis free, lookup_cons_eq_ite]
        by_cases sameKnown : other = first.1
        · rw [if_pos sameKnown, if_pos sameKnown, if_neg (sameKnown ▸ different.symm)]
        · rw [if_neg sameKnown, if_neg sameKnown]

theorem mem_place {entries : List (String × Entry)} {name : String} {entry : Entry}
    {pair : String × Entry} :
    pair ∈ place name entry entries ↔ pair = (name, entry) ∨ pair ∈ entries := by
  induction entries with
  | nil => simp [place]
  | cons first rest inductionHypothesis =>
      obtain ⟨known, existing⟩ := first
      rw [place]
      split
      · rw [List.mem_cons]
      · rw [List.mem_cons, inductionHypothesis, List.mem_cons]
        exact or_left_comm

/-! ### Defining a name -/

/-- A table lists every name that it has a meaning for, with that meaning and no other. -/
def Faithful (table : NameTable) : Prop :=
  ∀ name entry, (name, entry) ∈ table.toList ↔ table.get? name = some entry

theorem faithful_empty : Faithful empty := by
  intro name entry
  simp [toList, empty, get?]

/-- The table in which a name has a meaning, the given one if it had none. -/
def keepingFirst (table : NameTable) (name : String) (entry : Entry) : NameTable :=
  match table.define name entry with
  | .ok extended => extended
  | .error _ => table

/-- The first definition of a name wins. -/
theorem get?_keepingFirst (table : NameTable) (name : String) (entry : Entry)
    (other : String) :
    (table.keepingFirst name entry).get? other =
      (table.get? other).or (if name = other then some entry else none) := by
  unfold keepingFirst define
  cases found : table.get? name with
  | none =>
      have answers := lookup_place entry found other
      change (place name entry table.entries).lookup other = _
      rw [answers]
      by_cases same : name = other
      · subst same
        rw [if_pos rfl, if_pos rfl, found, Option.none_or]
      · rw [if_neg (Ne.symm same), if_neg same, Option.or_none]
        rfl
  | some existing =>
      dsimp only
      by_cases same : name = other
      · subst same
        rw [found, Option.some_or]
      · rw [if_neg same, Option.or_none]

theorem Faithful.keepingFirst {table : NameTable} (faithful : table.Faithful) (name : String)
    (entry : Entry) : (table.keepingFirst name entry).Faithful := by
  intro other meaning
  rw [get?_keepingFirst]
  unfold NameTable.keepingFirst define
  cases found : table.get? name with
  | none =>
      have listed : (other, meaning) ∈ place name entry table.entries ↔
          (other, meaning) = (name, entry) ∨ table.get? other = some meaning := by
        rw [mem_place]
        exact or_congr_right (faithful other meaning)
      dsimp only
      refine Iff.trans listed ?_
      by_cases same : name = other
      · subst same
        rw [found]
        simp [eq_comm]
      · simp [same, Ne.symm same]
  | some existing =>
      dsimp only
      rw [faithful other meaning]
      by_cases same : name = other
      · subst same
        rw [found, Option.some_or]
      · rw [if_neg same, Option.or_none]

end NameTable

end Solfege
