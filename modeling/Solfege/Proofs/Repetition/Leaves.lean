import Solfege.Proofs.Repetition.Nodes

/-!
Contract: how long a list becomes when its repetitions are expanded and its groups spliced.

Owns:
- the number of leaves of a list, which are its elements at any depth of groups, repetitions
  left aside;
- the bound on the length of the spliced list by the limit and the number of leaves;
- the lists that reach this bound.

Does not own: what stands within arguments and holds, which count as one element each.

The limit is tested at a repetition only, and anew in each group. What carries the bound through
nested groups is that an element without leaves takes no room, however often it is copied.
-/

namespace Solfege.Expression

mutual

/-- The number of elements that an expression has once its groups are spliced, where no
repetition counts. -/
def leafCount : Expression → Nat
  | .group items _ => leafCountOfAll items
  | .repetition _ _ => 0
  | _ => 1

/-- The number of such elements in a list. -/
def leafCountOfAll : List Expression → Nat
  | [] => 0
  | item :: rest => leafCount item + leafCountOfAll rest

end

@[simp] theorem leafCountOfAll_nil : leafCountOfAll [] = 0 := rfl

@[simp] theorem leafCountOfAll_cons (item : Expression) (rest : List Expression) :
    leafCountOfAll (item :: rest) = item.leafCount + leafCountOfAll rest := rfl

@[simp] theorem leafCountOfAll_append (left right : List Expression) :
    leafCountOfAll (left ++ right) = leafCountOfAll left + leafCountOfAll right := by
  induction left with
  | nil => simp
  | cons item rest inductionHypothesis => simp [inductionHypothesis, Nat.add_assoc]

@[simp] theorem leafCountOfAll_replicate (count : Nat) (item : Expression) :
    leafCountOfAll (List.replicate count item) = count * item.leafCount := by
  induction count with
  | zero => simp
  | succ count inductionHypothesis =>
      rw [List.replicate_succ, leafCountOfAll_cons, inductionHypothesis, Nat.succ_mul, Nat.add_comm]

theorem leafCount_group (items : List Expression) (token : Token) :
    (Expression.group items token).leafCount = leafCountOfAll items := rfl

theorem leafCountOfAll_le_nodes {list : List Expression}
    (each : ∀ item ∈ list, item.leafCount ≤ item.nodeCount) :
    leafCountOfAll list ≤ nodeCountOfAll list := by
  induction list with
  | nil => exact Nat.le_refl _
  | cons item rest inductionHypothesis =>
      rw [List.forall_mem_cons] at each
      rw [leafCountOfAll_cons, nodeCountOfAll_cons]
      exact Nat.add_le_add each.1 (inductionHypothesis each.2)

theorem leafCount_le_nodeCount (expression : Expression) :
    expression.leafCount ≤ expression.nodeCount := by
  induction expression using partsInduction with
  | group items token others =>
      rw [leafCount_group, nodeCount_group]
      exact Nat.le_succ_of_le (leafCountOfAll_le_nodes others)
  | call name arguments token others =>
      rw [nodeCount_call]
      exact Nat.le_add_left 1 _
  | hold inner token here =>
      rw [nodeCount_hold]
      exact Nat.le_add_left 1 _
  | repetition count token => exact Nat.zero_le _
  | _ => exact Nat.le_refl _

/-! ### The bound for one list -/

section Bounds

variable {limit factor : Nat} {list made : List Expression}

/-- The elements of a list are bounded by their leaves. A repetition is none of them, because
it is gone when its list is expanded. -/
def LeafBounded (limit factor : Nat) (element : Expression) : Prop :=
  element.isRepetition = false →
    (unrollWithin limit element).1.flatSize ≤ factor * element.leafCount

/-- However many copies there are of an element, its leaves bound the room that they take. -/
theorem LeafBounded.copies_le {element : Expression} (bounded : LeafBounded limit factor element)
    (plain : element.isRepetition = false) (enough : limit ≤ factor) {copies : Nat}
    (fits : copies ≤ 1 ∨ copies * (unrollWithin limit element).1.flatSize ≤ limit) :
    copies * (unrollWithin limit element).1.flatSize ≤ factor * element.leafCount := by
  have single := bounded plain
  rcases fits with few | fits
  · exact (Nat.mul_le_mul_right _ few).trans (by omega)
  · by_cases leafless : element.leafCount = 0
    · -- An element without leaves takes no room, and neither do its copies.
      rw [leafless, Nat.mul_zero] at single ⊢
      rw [Nat.le_zero.mp single, Nat.mul_zero]
    · calc copies * (unrollWithin limit element).1.flatSize
          ≤ factor := fits.trans enough
        _ ≤ factor * element.leafCount := Nat.le_mul_of_pos_right _ (Nat.pos_of_ne_zero leafless)

theorem CopiesOf.length_le (copies : CopiesOf limit list made) (enough : limit ≤ factor)
    (bounded : ∀ element ∈ list, LeafBounded limit factor element) :
    (flatten made).length ≤ factor * leafCountOfAll list := by
  induction copies with
  | nil => exact Nat.zero_le _
  | repetition count token before inductionHypothesis =>
      rw [List.forall_mem_append] at bounded
      have known := inductionHypothesis bounded.1
      simpa [leafCount] using known
  | element copies before plain fits inductionHypothesis =>
      rw [List.forall_mem_append, List.forall_mem_singleton] at bounded
      have known := inductionHypothesis bounded.1
      have here := bounded.2.copies_le plain enough fits
      rw [flatten_append, List.length_append, length_flatten_replicate, leafCountOfAll_append,
        leafCountOfAll_cons, leafCountOfAll_nil, Nat.add_zero, Nat.mul_add]
      exact Nat.add_le_add known here

theorem leafBounded (positive : 1 ≤ factor) (enough : limit ≤ factor) (element : Expression) :
    LeafBounded limit factor element := by
  induction element using partsInduction with
  | group items token others =>
      intro _
      rw [unrollWithin_group, flatSize_group, leafCount_group]
      exact (copiesOf_unroll limit items).length_le enough others
  | repetition count token =>
      intro plain
      contradiction
  | _ =>
      intro _
      exact positive.trans_eq (Nat.mul_one factor).symm

end Bounds

/-! ### Main result -/

/-- **Groups compose to one flat bound.** Expanded and spliced, a list has at most as many
elements as it has leaves, times the limit, or times one where that is zero. As there are no
more leaves than expressions in the list, repeated groups within repeated groups, however deep,
make of a list no more than a fixed multiple of it. -/
theorem length_flatten_unroll_le (limit : Nat) (list : List Expression) :
    (flatten (unroll limit list).1).length ≤ max 1 limit * leafCountOfAll list ∧
      leafCountOfAll list ≤ nodeCountOfAll list := by
  have positive : 1 ≤ max 1 limit := Nat.le_max_left 1 limit
  have enough : limit ≤ max 1 limit := Nat.le_max_right 1 limit
  refine ⟨?_, leafCountOfAll_le_nodes fun item _ => leafCount_le_nodeCount item⟩
  exact (copiesOf_unroll limit list).length_le enough fun element _ =>
    leafBounded positive enough element

/-! ### The bound is reached -/

theorem unroll_replicate_of_plain {limit : Nat} {element : Expression}
    (plain : element.isRepetition = false) (silent : (unrollWithin limit element).2 = [])
    (count : Nat) :
    unroll limit (List.replicate count element) =
      (List.replicate count (unrollWithin limit element).1, []) := by
  induction count with
  | zero => rfl
  | succ count inductionHypothesis =>
      rw [List.replicate_succ', unroll_concat_of_plain plain, inductionHypothesis, silent,
        List.replicate_succ', List.append_nil]

/-- The group `[do*count]`. -/
def repeatedNote (count : Nat) : Expression :=
  .group [.note ⟨.ut, 0, none, none, default⟩, .repetition count default] default

theorem unrollWithin_repeatedNote (limit : Nat) :
    unrollWithin limit (repeatedNote limit) =
      (.group (List.replicate limit (.note ⟨.ut, 0, none, none, default⟩)) default, []) := by
  let sound : Expression := .note ⟨.ut, 0, none, none, default⟩
  have alone : unroll limit ([] ++ [sound]) = ([sound], []) := rfl
  have room : (flatten []).length + limit * sound.flatSize ≤ limit := by
    show 0 + limit * 1 ≤ limit
    omega
  have expanded : unroll limit ([] ++ [sound] ++ [.repetition limit default]) = _ :=
    unroll_concat_of_room (congrArg Prod.fst alone) room
  rw [repeatedNote, unrollWithin_group]
  exact congrArg (fun made => (Expression.group made.1 default, made.2)) expanded

/-- Every group of a list may take as much room as the limit allows: for every limit and every
number of leaves there is a list that reaches the bound, without a problem. -/
theorem exists_list_of_leaves (limit count : Nat) :
    ∃ list, leafCountOfAll list = count ∧ (unroll limit list).2 = [] ∧
      (flatten (unroll limit list).1).length = limit * count := by
  have silent : (unrollWithin limit (repeatedNote limit)).2 = [] := by
    rw [unrollWithin_repeatedNote]
  have size : (unrollWithin limit (repeatedNote limit)).1.flatSize = limit := by
    rw [unrollWithin_repeatedNote, flatSize_group, length_flatten_replicate]
    exact Nat.mul_one limit
  refine ⟨List.replicate count (repeatedNote limit), ?_, ?_, ?_⟩
  · rw [leafCountOfAll_replicate]
    exact Nat.mul_one count
  · rw [unroll_replicate_of_plain rfl silent]
  · rw [unroll_replicate_of_plain rfl silent, length_flatten_replicate, size, Nat.mul_comm]

end Solfege.Expression
