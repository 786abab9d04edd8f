import Solfege.Proofs.Names.Table
import Mathlib.Data.Finset.Card
import Mathlib.Data.UInt

/-!
Contract: a table of names is an ordered map in which the first definition of a name stays.

Owns:
- tables that list their names in the order of their bytes;
- the answers to definitions that are made one after the other, and the table behind them;
- the first definition of a name among others;
- the proof that the answers, and all that the table tells afterwards, are those of the first
  definitions.

Does not own: which definitions a score makes, or what is reported for a name that is taken.

The first definitions are told from the list of definitions alone, so that nothing of the table
is on their side.
-/

namespace Solfege.NameTable

/-! ### The order of names -/

theorem bytes_injective : Function.Injective bytes := by
  intro name other same
  have data : name.toUTF8.data = other.toUTF8.data := Array.toList_inj.mp same
  exact String.toByteArray_inj.mp (ByteArray.ext data)

/-- Of two names one is in front of the other. -/
theorem bytes_lt_of_not_lt {name other : String} (different : name ≠ other)
    (notBefore : ¬bytes name < bytes other) : bytes other < bytes name := by
  rcases List.le_iff_lt_or_eq.mp (List.not_lt.mp notBefore) with before | same
  · exact before
  · exact absurd (bytes_injective same).symm different

/-- The names are listed in the order of their bytes, none of them twice. -/
def InOrder (entries : List (String × Entry)) : Prop :=
  entries.Pairwise fun earlier later => bytes earlier.1 < bytes later.1

theorem InOrder.nodup {entries : List (String × Entry)} (ordered : InOrder entries) :
    (entries.map Prod.fst).Nodup := by
  refine List.pairwise_map.mpr (ordered.imp fun {earlier later} before same => ?_)
  rw [same] at before
  exact List.lt_irrefl _ before

/-- A name that is not listed yet is placed in the order. -/
theorem InOrder.place {entries : List (String × Entry)} {name : String} (entry : Entry)
    (ordered : InOrder entries) (free : entries.lookup name = none) :
    InOrder (place name entry entries) := by
  induction entries with
  | nil => exact List.pairwise_singleton _ _
  | cons first rest inductionHypothesis =>
      obtain ⟨behindFirst, orderedRest⟩ := List.pairwise_cons.mp ordered
      rw [lookup_cons_eq_ite] at free
      have different : name ≠ first.1 := by
        intro same
        rw [if_pos same] at free
        contradiction
      rw [if_neg different] at free
      rw [NameTable.place]
      split
      · rename_i before
        refine List.pairwise_cons.mpr ⟨fun other member => ?_, ordered⟩
        rcases List.mem_cons.mp member with rfl | behind
        · exact before
        · exact List.lt_trans before (behindFirst other behind)
      · rename_i notBefore
        refine List.pairwise_cons.mpr ⟨fun other member => ?_, inductionHypothesis orderedRest free⟩
        rcases mem_place.mp member with rfl | behind
        · exact bytes_lt_of_not_lt different notBefore
        · exact behindFirst other behind

theorem InOrder.keepingFirst {table : NameTable} (ordered : InOrder table.toList) (name : String)
    (entry : Entry) : InOrder (table.keepingFirst name entry).toList := by
  unfold NameTable.keepingFirst define
  cases found : table.get? name with
  | none => exact ordered.place entry found
  | some existing => exact ordered

/-! ### One definition after the other -/

/-- What a table answers to definitions that are made one after the other, and the table behind
them. -/
def defineEach (table : NameTable) :
    List (String × Entry) → List (Except Entry Unit) × NameTable
  | [] => ([], table)
  | (name, entry) :: others =>
      let answer := (table.define name entry).map fun _ => ()
      let (answers, final) := (table.keepingFirst name entry).defineEach others
      (answer :: answers, final)

/-- The first of the definitions of a name gives it a meaning. -/
def IsFirst (definitions : List (String × Entry)) (name : String) (entry : Entry) : Prop :=
  ∃ before behind, definitions = before ++ (name, entry) :: behind ∧
    name ∉ before.map Prod.fst

variable {definitions : List (String × Entry)} {name : String} {entry : Entry}

theorem isFirst_iff_lookup : IsFirst definitions name entry ↔
    definitions.lookup name = some entry := by
  rw [List.lookup_eq_some_iff]
  refine exists_congr fun before => exists_congr fun behind => and_congr_right fun _ => ?_
  simp only [List.mem_map, not_exists, not_and, bne_iff_ne]
  exact forall_congr' fun other => forall_congr' fun _ => ne_comm

/-- Definitions behind others find the table that those have made. -/
theorem defineEach_append (table : NameTable) (front back : List (String × Entry)) :
    table.defineEach (front ++ back) =
      ((table.defineEach front).1 ++ ((table.defineEach front).2.defineEach back).1,
        ((table.defineEach front).2.defineEach back).2) := by
  induction front generalizing table with
  | nil => rfl
  | cons definition others inductionHypothesis =>
      rw [List.cons_append, defineEach, inductionHypothesis]
      rfl

theorem length_defineEach (table : NameTable) (definitions : List (String × Entry)) :
    (table.defineEach definitions).1.length = definitions.length := by
  induction definitions generalizing table with
  | nil => rfl
  | cons definition others inductionHypothesis =>
      rw [defineEach, List.length_cons, List.length_cons, inductionHypothesis]

/-- Each definition is answered by the table that those in front of it have made. -/
theorem getElem?_defineEach (table : NameTable) (before : List (String × Entry)) (name : String)
    (entry : Entry) (behind : List (String × Entry)) :
    (table.defineEach (before ++ (name, entry) :: behind)).1[before.length]? =
      some (((table.defineEach before).2.define name entry).map fun _ => ()) := by
  rw [defineEach_append, List.getElem?_append_right (Nat.le_of_eq (length_defineEach _ _)),
    length_defineEach, Nat.sub_self]
  rfl

theorem get?_defineEach (table : NameTable) (definitions : List (String × Entry))
    (name : String) :
    (table.defineEach definitions).2.get? name =
      (table.get? name).or (definitions.lookup name) := by
  induction definitions generalizing table with
  | nil => exact (Option.or_none).symm
  | cons definition others inductionHypothesis =>
      rw [defineEach, inductionHypothesis, get?_keepingFirst, Option.or_assoc, lookup_cons_eq_ite]
      congr 1
      by_cases same : definition.1 = name
      · rw [if_pos same, if_pos same.symm, Option.some_or]
      · rw [if_neg same, if_neg (Ne.symm same), Option.none_or]

/-- What one definition keeps is kept by all. -/
theorem defineEach_keeps (kept : NameTable → Prop)
    (step : ∀ table name entry, kept table → kept (table.keepingFirst name entry))
    {table : NameTable} (here : kept table) (definitions : List (String × Entry)) :
    kept (table.defineEach definitions).2 := by
  induction definitions generalizing table with
  | nil => exact here
  | cons definition others inductionHypothesis =>
      exact inductionHypothesis (step table definition.1 definition.2 here)

/-! ### A table that was empty -/

/-- The table behind definitions that were made one after the other. -/
def ofDefinitions (definitions : List (String × Entry)) : NameTable :=
  (empty.defineEach definitions).2

theorem get?_ofDefinitions (definitions : List (String × Entry)) (name : String) :
    (ofDefinitions definitions).get? name = definitions.lookup name :=
  get?_defineEach empty definitions name

theorem inOrder_ofDefinitions (definitions : List (String × Entry)) :
    InOrder (ofDefinitions definitions).toList :=
  defineEach_keeps (fun table => InOrder table.toList)
    (fun _ name entry ordered => ordered.keepingFirst name entry) .nil definitions

theorem faithful_ofDefinitions (definitions : List (String × Entry)) :
    (ofDefinitions definitions).Faithful :=
  defineEach_keeps Faithful (fun _ name entry faithful => faithful.keepingFirst name entry)
    faithful_empty definitions

theorem contains_ofDefinitions :
    (ofDefinitions definitions).contains name = true ↔ name ∈ definitions.map Prod.fst := by
  unfold contains
  rw [get?_ofDefinitions, Option.isSome_iff_ne_none]
  exact mem_map_fst_iff_lookup_ne_none.symm

/-- The names that are listed are those that were defined. -/
theorem mem_names_ofDefinitions : name ∈ (ofDefinitions definitions).toList.map Prod.fst ↔
    name ∈ definitions.map Prod.fst := by
  refine Iff.trans ?_ contains_ofDefinitions
  rw [contains, Option.isSome_iff_exists, List.mem_map]
  constructor
  · rintro ⟨⟨_, entry⟩, listed, rfl⟩
    exact ⟨entry, (faithful_ofDefinitions definitions _ _).mp listed⟩
  · rintro ⟨entry, found⟩
    exact ⟨(name, entry), (faithful_ofDefinitions definitions _ _).mpr found, rfl⟩

theorem macroIndex?_eq_some_iff {table : NameTable} {index : Nat} :
    table.macroIndex? name = some index ↔ table.get? name = some (.macroAt index) := by
  unfold macroIndex?
  split
  · rename_i found
    rw [found]
    simp
  · rename_i other
    simp only [reduceCtorEq, false_iff]
    exact other index

theorem size_ofDefinitions (definitions : List (String × Entry)) :
    (ofDefinitions definitions).size = (definitions.map Prod.fst).toFinset.card := by
  have distinct := (inOrder_ofDefinitions definitions).nodup
  have listed : ((ofDefinitions definitions).toList.map Prod.fst).toFinset =
      (definitions.map Prod.fst).toFinset := by
    ext name
    rw [List.mem_toFinset, List.mem_toFinset, mem_names_ofDefinitions]
  rw [← listed, List.toFinset_card_of_nodup distinct, List.length_map]
  rfl

theorem isEmpty_ofDefinitions :
    (ofDefinitions definitions).isEmpty = true ↔ definitions = [] := by
  have size : (ofDefinitions definitions).size = (ofDefinitions definitions).entries.length := rfl
  rw [isEmpty, List.isEmpty_iff, ← List.length_eq_zero_iff, ← size, size_ofDefinitions,
    Finset.card_eq_zero, List.toFinset_eq_empty_iff, List.map_eq_nil_iff]

/-- The table behind one more definition. -/
theorem ofDefinitions_concat (before : List (String × Entry)) (name : String) (entry : Entry) :
    ofDefinitions (before ++ [(name, entry)]) =
      (ofDefinitions before).keepingFirst name entry := by
  unfold ofDefinitions
  rw [defineEach_append]
  rfl

/-- A definition is refused just if its name is taken, with the meaning that the first definition
has given to the name. Then the table stays as it is. -/
theorem define_ofDefinitions (before : List (String × Entry)) (name : String) (entry : Entry) :
    (((ofDefinitions before).define name entry).map (fun _ => ()) = .ok () ↔
        name ∉ before.map Prod.fst) ∧
      (∀ existing, ((ofDefinitions before).define name entry).map (fun _ => ()) =
        .error existing ↔ IsFirst before name existing) ∧
      (name ∈ before.map Prod.fst →
        ofDefinitions (before ++ [(name, entry)]) = ofDefinitions before) := by
  rw [ofDefinitions_concat, NameTable.keepingFirst, define, get?_ofDefinitions,
    mem_map_fst_iff_lookup_ne_none]
  simp only [isFirst_iff_lookup]
  cases before.lookup name with
  | none => simp [Except.map]
  | some existing => simp [Except.map]

/-- **The first definition of a name stays.** Of definitions that are made one after the other in
an empty table, each is accepted just if none in front of it has its name. It is refused with the
meaning that the first one of the name has given, and then the table stays as it is. Behind all of
them the table tells of each name what the first definition of it says, of no other name anything,
holds as many names as there are different ones, and lists each of them once, in the order of
their bytes. -/
theorem first_definition_stays (definitions : List (String × Entry)) :
    ∃ answers table, empty.defineEach definitions = (answers, table) ∧
      answers.length = definitions.length ∧
      (∀ before name entry behind, definitions = before ++ (name, entry) :: behind →
        (answers[before.length]? = some (.ok ()) ↔ name ∉ before.map Prod.fst) ∧
        (∀ existing, answers[before.length]? = some (.error existing) ↔
          IsFirst before name existing) ∧
        (name ∈ before.map Prod.fst →
          ofDefinitions (before ++ [(name, entry)]) = ofDefinitions before)) ∧
      (∀ name,
        (∀ entry, table.get? name = some entry ↔ IsFirst definitions name entry) ∧
        (table.contains name = true ↔ name ∈ definitions.map Prod.fst) ∧
        ∀ index, table.macroIndex? name = some index ↔
          IsFirst definitions name (.macroAt index)) ∧
      table.size = (definitions.map Prod.fst).toFinset.card ∧
      (table.isEmpty = true ↔ definitions = []) ∧
      (∀ name entry, (name, entry) ∈ table.toList ↔ IsFirst definitions name entry) ∧
      (table.toList.map Prod.fst).Nodup ∧
      table.toList.Pairwise fun earlier later => bytes earlier.1 < bytes later.1 := by
  have told (name entry) :
      (ofDefinitions definitions).get? name = some entry ↔ IsFirst definitions name entry := by
    rw [get?_ofDefinitions, isFirst_iff_lookup]
  have ordered := inOrder_ofDefinitions definitions
  refine ⟨_, _, rfl, length_defineEach _ _, ?_, ?_, size_ofDefinitions definitions,
    isEmpty_ofDefinitions, ?_, ordered.nodup, ordered⟩
  · rintro before name entry behind rfl
    rw [getElem?_defineEach]
    simp only [Option.some_inj]
    exact define_ofDefinitions before name entry
  · intro name
    exact ⟨told name, contains_ofDefinitions, fun index =>
      macroIndex?_eq_some_iff.trans (told name (.macroAt index))⟩
  · intro name entry
    exact (faithful_ofDefinitions definitions name entry).trans (told name entry)

/-- Names that begin with others or with a character of two bytes, and one name defined twice. -/
theorem first_definition_stays_prefixes :
    ∃ table, empty.defineEach [("é", .macroAt 1), ("b", .movementAt 1 1), ("ab", .macroAt 2),
        ("a", .macroAt 3), ("b", .macroAt 4)] =
          ([.ok (), .ok (), .ok (), .ok (), .error (.movementAt 1 1)], table) ∧
      IsFirst [("é", .macroAt 1), ("b", .movementAt 1 1), ("ab", .macroAt 2), ("a", .macroAt 3)]
        "b" (.movementAt 1 1) ∧
      table.macroIndex? "b" = none ∧ table.size = 4 ∧
      table.toList.map Prod.fst = ["a", "ab", "b", "é"] := by
  obtain ⟨answers, table, same, _, each, _⟩ := first_definition_stays
    [("é", .macroAt 1), ("b", .movementAt 1 1), ("ab", .macroAt 2), ("a", .macroAt 3),
      ("b", .macroAt 4)]
  have computed : empty.defineEach [("é", .macroAt 1), ("b", .movementAt 1 1),
      ("ab", .macroAt 2), ("a", .macroAt 3), ("b", .macroAt 4)] =
        ([.ok (), .ok (), .ok (), .ok (), .error (.movementAt 1 1)],
          ⟨[("a", .macroAt 3), ("ab", .macroAt 2), ("b", .movementAt 1 1),
            ("é", .macroAt 1)]⟩) := by decide +kernel
  obtain ⟨rfl, rfl⟩ := Prod.mk.inj (same.symm.trans computed)
  refine ⟨_, computed, ?_, by decide +kernel, by decide +kernel, by decide +kernel⟩
  exact ((each _ "b" (.macroAt 4) [] rfl).2.1 (.movementAt 1 1)).mp rfl

end Solfege.NameTable
