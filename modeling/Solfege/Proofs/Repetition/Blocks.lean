import Solfege.Proofs.Repetition.Basic
import Mathlib.Data.List.Chain

/-!
Contract: repetitions as copies, block by block.

Owns:
- the lists in which every repetition directly follows an element;
- what such a list becomes by its blocks, each an element alone or one with a repetition;
- the proof that the expansion of a list is exactly this, and that the size that it keeps is
  that of the flattened list at every moment.

Does not own: chains of repetitions behind one element.

The blocks are told without a running size. Whether copies find room is asked of the
flattened output so far, and the answer is exact: with room there are as many copies as the
repetition says, and otherwise one copy and one problem.
-/

namespace Solfege.Expression

/-! ### Lists of blocks -/

/-- Every repetition directly follows an element that is none. -/
structure RepeatsElements (list : List Expression) : Prop where
  first : ∀ element ∈ list.head?, element.isRepetition = false
  others : list.IsChain fun earlier later =>
    later.isRepetition = true → earlier.isRepetition = false

/-- What a list becomes by its blocks from left to right, and with which problems. -/
inductive UnrollsTo (limit : Nat) :
    List Expression → List Expression → List Diagnostic → Prop where
  | nil : UnrollsTo limit [] [] []
  /-- An element alone becomes its own expansion. -/
  | alone {front made : List Expression} {problems : List Diagnostic} {element : Expression}
      (before : UnrollsTo limit front made problems)
      (plain : element.isRepetition = false) :
      UnrollsTo limit (front ++ [element])
        (made ++ [(unrollWithin limit element).1])
        (problems ++ (unrollWithin limit element).2)
  /-- With room for the copies, behind what there is already, there are as many as the
  repetition says. -/
  | copied {front made : List Expression} {problems : List Diagnostic} {element : Expression}
      {count : Nat} (token : Token) (before : UnrollsTo limit front made problems)
      (plain : element.isRepetition = false)
      (room : (flatten made).length +
        count * (flatten [(unrollWithin limit element).1]).length ≤ limit) :
      UnrollsTo limit (front ++ [element, .repetition count token])
        (made ++ List.replicate count (unrollWithin limit element).1)
        (problems ++ (unrollWithin limit element).2)
  /-- Without room there is one copy, and a problem at the repetition. -/
  | refused {front made : List Expression} {problems : List Diagnostic} {element : Expression}
      {count : Nat} (token : Token) (before : UnrollsTo limit front made problems)
      (plain : element.isRepetition = false)
      (full : limit < (flatten made).length +
        count * (flatten [(unrollWithin limit element).1]).length) :
      UnrollsTo limit (front ++ [element, .repetition count token])
        (made ++ [(unrollWithin limit element).1])
        (problems ++ (unrollWithin limit element).2 ++
          [Diagnostic.expansionAt token (.repetitionTooLarge count limit)])

section Blocks

variable {limit : Nat} {list front behind : List Expression}

namespace RepeatsElements

theorem of_append (repeats : RepeatsElements (front ++ behind)) : RepeatsElements front where
  first element member := by
    apply repeats.first element
    rw [List.head?_append, Option.mem_def, Option.mem_def.mp member, Option.some_or]
  others := (List.isChain_append.mp repeats.others).1

/-- In front of a repetition at the end stands the element that it repeats. -/
theorem exists_element {count : Nat} {token : Token}
    (repeats : RepeatsElements (front ++ [.repetition count token])) :
    ∃ earlier element, front = earlier ++ [element] ∧ element.isRepetition = false := by
  rcases List.eq_nil_or_concat front with none | ⟨earlier, element, same⟩
  · subst none
    exact absurd (repeats.first _ rfl) (by simp [isRepetition])
  · rw [List.concat_eq_append] at same
    subst same
    have linked := (List.isChain_append.mp repeats.others).2.2
    exact ⟨earlier, element, rfl, linked element (by simp) _ rfl rfl⟩

end RepeatsElements

/-! ### The expansion by blocks -/

section Repeated

variable {element : Expression} {count : Nat}

theorem unroll_concat_repeated_of_room (token : Token) (plain : element.isRepetition = false)
    (room : (flatten (unroll limit list).1).length +
      count * (unrollWithin limit element).1.flatSize ≤ limit) :
    unroll limit (list ++ [element, .repetition count token]) =
      ((unroll limit list).1 ++ List.replicate count (unrollWithin limit element).1,
        (unroll limit list).2 ++ (unrollWithin limit element).2) := by
  have alone : unroll limit (list ++ [element]) = _ := unroll_concat_of_plain plain
  rw [List.append_cons, unroll_concat_of_room (congrArg Prod.fst alone) room, alone]

theorem unroll_concat_repeated_of_no_room (token : Token)
    (plain : element.isRepetition = false)
    (full : limit < (flatten (unroll limit list).1).length +
      count * (unrollWithin limit element).1.flatSize) :
    unroll limit (list ++ [element, .repetition count token]) =
      ((unroll limit list).1 ++ [(unrollWithin limit element).1],
        (unroll limit list).2 ++ (unrollWithin limit element).2 ++
          [Diagnostic.expansionAt token (.repetitionTooLarge count limit)]) := by
  have alone : unroll limit (list ++ [element]) = _ := unroll_concat_of_plain plain
  rw [List.append_cons, unroll_concat_of_no_room (congrArg Prod.fst alone) full, alone]

end Repeated

/-- A list with blocks becomes what its expansion is. -/
theorem UnrollsTo.unroll_eq {made : List Expression} {problems : List Diagnostic}
    (becomes : UnrollsTo limit list made problems) : unroll limit list = (made, problems) := by
  induction becomes with
  | nil => rfl
  | alone before plain inductionHypothesis =>
      rw [unroll_concat_of_plain plain, inductionHypothesis]
  | copied token before plain room inductionHypothesis =>
      rw [length_flatten_singleton] at room
      rw [unroll_concat_repeated_of_room token plain (by rw [inductionHypothesis]; exact room),
        inductionHypothesis]
  | refused token before plain full inductionHypothesis =>
      rw [length_flatten_singleton] at full
      rw [unroll_concat_repeated_of_no_room token plain
          (by rw [inductionHypothesis]; exact full),
        inductionHypothesis]

/-- Every list whose repetitions follow elements has blocks. The induction is on its length,
since a block at the end may be two elements long. -/
theorem RepeatsElements.exists_unrollsTo (repeats : RepeatsElements list) (limit : Nat) :
    ∃ made problems, UnrollsTo limit list made problems := by
  induction length : list.length using Nat.strong_induction_on generalizing list with
  | _ _ inductionHypothesis =>
      subst length
      rcases List.eq_nil_or_concat list with none | ⟨front, last, same⟩
      · exact none ▸ ⟨[], [], .nil⟩
      rw [List.concat_eq_append] at same
      subst same
      rcases repetition_or_plain last with ⟨count, token, rfl⟩ | plain
      · obtain ⟨earlier, element, rfl, plain⟩ := repeats.exists_element
        obtain ⟨made, problems, before⟩ :=
          inductionHypothesis earlier.length (by simp) repeats.of_append.of_append rfl
        rw [List.append_assoc]
        by_cases room : (flatten made).length +
            count * (flatten [(unrollWithin limit element).1]).length ≤ limit
        · exact ⟨_, _, .copied token before plain room⟩
        · exact ⟨_, _, .refused token before plain (Nat.not_le.mp room)⟩
      · obtain ⟨made, problems, before⟩ :=
          inductionHypothesis front.length (by simp) repeats.of_append rfl
        exact ⟨_, _, .alone before (isRepetition_eq_false_iff.mpr plain)⟩

end Blocks

/-! ### Main result -/

/-- **Repetition means copies, and its limit is exact.** A list in which every repetition
directly follows an element is expanded block by block, and in no other way. While any list
is expanded, the size that is kept is the number of elements that those made so far are
flattened to, and the size of the latest is never more than it. -/
theorem unroll_by_blocks (limit : Nat) (list : List Expression) :
    (RepeatsElements list → ∀ made problems,
        UnrollsTo limit list made problems ↔ unroll limit list = (made, problems)) ∧
      ∀ front behind, list = front ++ behind →
        (unrollOnto limit ⟨[], 0, []⟩ front).size =
            (flatten (unrollOnto limit ⟨[], 0, []⟩ front).made.reverse).length ∧
          ∀ latest earlier, (unrollOnto limit ⟨[], 0, []⟩ front).made = latest :: earlier →
            latest.flatSize ≤ (unrollOnto limit ⟨[], 0, []⟩ front).size := by
  constructor
  · intro repeats made problems
    obtain ⟨known, reported, becomes⟩ := repeats.exists_unrollsTo limit
    constructor
    · exact UnrollsTo.unroll_eq
    · intro same
      rw [becomes.unroll_eq] at same
      obtain ⟨rfl, rfl⟩ := Prod.mk.inj same
      exact becomes
  · intro front behind _
    have measured := Unrolling.measured_start.unrollOnto limit front
    refine ⟨measured, fun latest earlier made => ?_⟩
    rw [measured.size_eq made]
    exact Nat.le_add_left _ _

/-- The list `[do*2]*3 re*1`, whose last repetition is the first without room under a limit
of six. -/
def overfull : List Expression :=
  [.group [.note ⟨.ut, 0, none, none, default⟩, .repetition 2 default] default,
    .repetition 3 default, .note ⟨.re, 0, none, none, default⟩, .repetition 1 default]

theorem unroll_by_blocks_overfull :
    RepeatsElements overfull ∧
      UnrollsTo 6 overfull
        (List.replicate 3
            (.group (List.replicate 2 (.note ⟨.ut, 0, none, none, default⟩)) default) ++
          [.note ⟨.re, 0, none, none, default⟩])
        [Diagnostic.expansionAt default (.repetitionTooLarge 1 6)] ∧
      (unrollOnto 6 ⟨[], 0, []⟩ overfull).size = 7 := by
  have repeats : RepeatsElements overfull := ⟨by decide, by decide⟩
  obtain ⟨blocks, sizes⟩ := unroll_by_blocks 6 overfull
  refine ⟨repeats, (blocks repeats _ _).mpr rfl, ?_⟩
  rw [(sizes overfull [] (List.append_nil _).symm).1]
  rfl

end Solfege.Expression
