import Solfege.Proofs.Conservation.Basic
import Solfege.Proofs.Repetition.Copies
import Mathlib.Tactic.Ring

/-!
Contract: how large a list becomes when its repetitions are expanded.

Owns:
- the number of expressions in an expression and in a list, counted at every depth;
- the number of them that stand in groups which hold nothing;
- how deep repetitions are nested by way of arguments and holds;
- the bound on the number of expressions after the expansion, and the lists that reach it.

Does not own: what becomes of the list when its groups are spliced or its macros inlined.

The limit is on the size of one list at a time. In this size a call counts once, whatever its
arguments have become, and a group without items counts nothing. So the limit is a factor for
each level of nested repetitions, and no bound at all for groups without items.
-/

namespace Solfege.Expression

/-! ### Numbers of expressions -/

/-- The number of expressions in an expression, itself included, at any depth. -/
def nodeCount (expression : Expression) : Nat := expression.nodes.length

/-- The number of expressions in a list. -/
def nodeCountOfAll (list : List Expression) : Nat := (nodesOfAll list).length

section Counts

variable (items arguments : List Expression) (inner : Expression) (name : String)
  (token : Token)

theorem nodeCount_group :
    (Expression.group items token).nodeCount = nodeCountOfAll items + 1 := rfl

theorem nodeCount_call :
    (Expression.call name arguments token).nodeCount = nodeCountOfAll arguments + 1 := rfl

theorem nodeCount_hold : (Expression.hold inner token).nodeCount = inner.nodeCount + 1 := rfl

end Counts

@[simp] theorem nodeCountOfAll_nil : nodeCountOfAll [] = 0 := rfl

@[simp] theorem nodeCountOfAll_cons (item : Expression) (rest : List Expression) :
    nodeCountOfAll (item :: rest) = item.nodeCount + nodeCountOfAll rest :=
  List.length_append

@[simp] theorem nodeCountOfAll_append (left right : List Expression) :
    nodeCountOfAll (left ++ right) = nodeCountOfAll left + nodeCountOfAll right := by
  unfold nodeCountOfAll
  rw [nodesOfAll_append, List.length_append]

@[simp] theorem nodeCountOfAll_replicate (count : Nat) (item : Expression) :
    nodeCountOfAll (List.replicate count item) = count * item.nodeCount := by
  induction count with
  | zero => simp
  | succ count inductionHypothesis =>
      rw [List.replicate_succ, nodeCountOfAll_cons, inductionHypothesis, Nat.succ_mul, Nat.add_comm]

mutual

/-- The number of expressions that stand in groups which hold nothing, these groups included.
A group holds nothing if no element is left of it once it is spliced. -/
def hollowCount : Expression → Nat
  | .group items _ =>
      if flatSizeFrom 0 items = 0 then nodeCountOfAll items + 1 else hollowCountOfAll items
  | .call _ arguments _ => hollowCountOfAll arguments
  | .hold inner _ => hollowCount inner
  | _ => 0

/-- The number of such expressions in a list. -/
def hollowCountOfAll : List Expression → Nat
  | [] => 0
  | item :: rest => hollowCount item + hollowCountOfAll rest

end

@[simp] theorem hollowCountOfAll_nil : hollowCountOfAll [] = 0 := rfl

@[simp] theorem hollowCountOfAll_cons (item : Expression) (rest : List Expression) :
    hollowCountOfAll (item :: rest) = item.hollowCount + hollowCountOfAll rest := rfl

@[simp] theorem hollowCountOfAll_append (left right : List Expression) :
    hollowCountOfAll (left ++ right) = hollowCountOfAll left + hollowCountOfAll right := by
  induction left with
  | nil => simp
  | cons item rest inductionHypothesis => simp [inductionHypothesis, Nat.add_assoc]

@[simp] theorem hollowCountOfAll_replicate (count : Nat) (item : Expression) :
    hollowCountOfAll (List.replicate count item) = count * item.hollowCount := by
  induction count with
  | zero => simp
  | succ count inductionHypothesis =>
      rw [List.replicate_succ, hollowCountOfAll_cons, inductionHypothesis, Nat.succ_mul,
        Nat.add_comm]

/-! ### Nested repetitions -/

mutual

/-- Whether a repetition stands in the expression, in groups at any depth. -/
def repeats : Expression → Bool
  | .repetition _ _ => true
  | .group items _ => anyRepeats items
  | _ => false

/-- Whether a repetition stands in a list or in its groups. -/
def anyRepeats : List Expression → Bool
  | [] => false
  | item :: rest => repeats item || anyRepeats rest

end

mutual

/-- How deep repetitions are nested within the arguments and holds of an expression. -/
def levels : Expression → Nat
  | .group items _ => levelsOfAll items
  | .call _ arguments _ => nestingOfEach arguments
  | .hold inner _ => levels inner + (repeats inner).toNat
  | _ => 0

/-- How deep they are nested within the arguments and holds of a list. -/
def levelsOfAll : List Expression → Nat
  | [] => 0
  | item :: rest => max (levels item) (levelsOfAll rest)

/-- How deep they are nested in one of several expressions that each stand for themselves. -/
def nestingOfEach : List Expression → Nat
  | [] => 0
  | item :: rest => max (levels item + (repeats item).toNat) (nestingOfEach rest)

end

/-- How deep repetitions are nested in an expression: those of one list and of its groups are
one level, and those within an argument or a hold are another one. -/
def nesting (expression : Expression) : Nat :=
  levels expression + (repeats expression).toNat

/-- How deep repetitions are nested in a list. -/
def nestingOfAll (list : List Expression) : Nat :=
  levelsOfAll list + (anyRepeats list).toNat

theorem nesting_group (items : List Expression) (token : Token) :
    (Expression.group items token).nesting = nestingOfAll items := rfl

theorem nesting_le_levels_add_one (expression : Expression) :
    expression.nesting ≤ expression.levels + 1 :=
  Nat.add_le_add_left (Bool.toNat_le _) _

theorem levels_le_of_mem {list : List Expression} {item : Expression} (member : item ∈ list) :
    item.levels ≤ levelsOfAll list := by
  induction member with
  | head rest => exact Nat.le_max_left _ _
  | tail other _ inductionHypothesis => exact inductionHypothesis.trans (Nat.le_max_right _ _)

theorem nesting_le_of_mem {arguments : List Expression} {argument : Expression}
    (member : argument ∈ arguments) : argument.nesting ≤ nestingOfEach arguments := by
  induction member with
  | head rest => exact Nat.le_max_left _ _
  | tail other _ inductionHypothesis => exact inductionHypothesis.trans (Nat.le_max_right _ _)

theorem anyRepeats_eq_false_iff {list : List Expression} :
    anyRepeats list = false ↔ ∀ item ∈ list, item.repeats = false := by
  induction list with
  | nil => simp [anyRepeats]
  | cons item rest inductionHypothesis =>
      rw [anyRepeats, Bool.or_eq_false_iff, inductionHypothesis, List.forall_mem_cons]

theorem isRepetition_eq_false_of_repeats {expression : Expression}
    (single : expression.repeats = false) : expression.isRepetition = false := by
  cases expression with
  | repetition count token => contradiction
  | _ => rfl

/-! ### Bounds -/

/-- What an expression becomes has a bounded number of expressions, those in groups which hold
nothing left aside. -/
structure Bounded (limit factor : Nat) (expression : Expression) : Prop where
  /-- The bound by the size that it takes in a list. -/
  bySize : (unrollWithin limit expression).1.nodeCount ≤
    (unrollWithin limit expression).1.flatSize *
        (factor ^ expression.levels * expression.nodeCount) +
      (unrollWithin limit expression).1.hollowCount
  /-- The bound by how deep repetitions are nested. -/
  byNesting : (unrollWithin limit expression).1.nodeCount ≤
    factor ^ expression.nesting * expression.nodeCount +
      (unrollWithin limit expression).1.hollowCount

section Bounds

variable {limit factor level : Nat} {list made : List Expression}

theorem Bounded.copies_le {element : Expression} (bounded : Bounded limit factor element)
    (positive : 1 ≤ factor) (enough : limit ≤ factor) (high : element.levels ≤ level)
    {copies : Nat}
    (fits : copies ≤ 1 ∨ copies * (unrollWithin limit element).1.flatSize ≤ limit) :
    copies * (unrollWithin limit element).1.nodeCount ≤
      factor ^ (level + 1) * element.nodeCount +
        copies * (unrollWithin limit element).1.hollowCount := by
  rcases fits with few | fits
  · -- A single copy need not fit into anything, so its own nesting bounds it.
    have power : factor ^ element.nesting ≤ factor ^ (level + 1) :=
      Nat.pow_le_pow_right positive ((nesting_le_levels_add_one element).trans (by omega))
    have here := bounded.byNesting.trans
      (Nat.add_le_add_right (Nat.mul_le_mul_right element.nodeCount power) _)
    rcases Nat.le_one_iff_eq_zero_or_eq_one.mp few with rfl | rfl
    · rw [Nat.zero_mul]
      exact Nat.zero_le _
    · rw [Nat.one_mul, Nat.one_mul]
      exact here
  · have power : factor ^ element.levels ≤ factor ^ level := Nat.pow_le_pow_right positive high
    have size := Nat.mul_le_mul (fits.trans enough) (Nat.mul_le_mul_right element.nodeCount power)
    calc copies * (unrollWithin limit element).1.nodeCount
        ≤ copies * ((unrollWithin limit element).1.flatSize *
              (factor ^ element.levels * element.nodeCount) +
            (unrollWithin limit element).1.hollowCount) :=
          Nat.mul_le_mul_left copies bounded.bySize
      _ = copies * (unrollWithin limit element).1.flatSize *
              (factor ^ element.levels * element.nodeCount) +
            copies * (unrollWithin limit element).1.hollowCount := by ring
      _ ≤ factor * (factor ^ level * element.nodeCount) +
            copies * (unrollWithin limit element).1.hollowCount :=
          Nat.add_le_add_right size _
      _ = factor ^ (level + 1) * element.nodeCount +
            copies * (unrollWithin limit element).1.hollowCount := by ring

/-- Copies of bounded elements are bounded by one level more than there is in each of them. -/
theorem CopiesOf.nodes_le (copies : CopiesOf limit list made) (positive : 1 ≤ factor)
    (enough : limit ≤ factor) (bounded : ∀ element ∈ list, Bounded limit factor element)
    (high : ∀ element ∈ list, element.levels ≤ level) :
    nodeCountOfAll made ≤ factor ^ (level + 1) * nodeCountOfAll list + hollowCountOfAll made := by
  induction copies with
  | nil => exact Nat.zero_le _
  | repetition count token before inductionHypothesis =>
      rw [List.forall_mem_append] at bounded high
      have known := inductionHypothesis bounded.1 high.1
      rw [nodeCountOfAll_append, Nat.mul_add]
      omega
  | element copies before plain fits inductionHypothesis =>
      rw [List.forall_mem_append, List.forall_mem_singleton] at bounded high
      have known := inductionHypothesis bounded.1 high.1
      have here := bounded.2.copies_le positive enough high.2 fits
      simp only [nodeCountOfAll_append, nodeCountOfAll_replicate, hollowCountOfAll_append,
        hollowCountOfAll_replicate, nodeCountOfAll_cons, nodeCountOfAll_nil, Nat.add_zero,
        Nat.mul_add]
      omega

/-- Copies of bounded elements are bounded by the size that they take together. -/
theorem CopiesOf.nodes_le_size (copies : CopiesOf limit list made) (positive : 1 ≤ factor)
    (bounded : ∀ element ∈ list, Bounded limit factor element)
    (high : ∀ element ∈ list, element.levels ≤ level) :
    nodeCountOfAll made ≤
      (flatten made).length * (factor ^ level * nodeCountOfAll list) + hollowCountOfAll made := by
  induction copies with
  | nil => exact Nat.zero_le _
  | repetition count token before inductionHypothesis =>
      rw [List.forall_mem_append] at bounded high
      have known := inductionHypothesis bounded.1 high.1
      rw [nodeCountOfAll_append, Nat.mul_add, Nat.mul_add]
      omega
  | @element list made element copies before plain fits inductionHypothesis =>
      rw [List.forall_mem_append, List.forall_mem_singleton] at bounded high
      have known := inductionHypothesis bounded.1 high.1
      have power : factor ^ element.levels ≤ factor ^ level :=
        Nat.pow_le_pow_right positive high.2
      have here : (unrollWithin limit element).1.nodeCount ≤
          (unrollWithin limit element).1.flatSize * (factor ^ level * element.nodeCount) +
            (unrollWithin limit element).1.hollowCount :=
        bounded.2.bySize.trans (Nat.add_le_add_right
          (Nat.mul_le_mul_left _ (Nat.mul_le_mul_right _ power)) _)
      have several := Nat.mul_le_mul_left copies here
      rw [flatten_append, List.length_append, length_flatten_replicate]
      simp only [nodeCountOfAll_append, nodeCountOfAll_replicate, hollowCountOfAll_append,
        hollowCountOfAll_replicate, nodeCountOfAll_cons, nodeCountOfAll_nil, Nat.add_zero,
        Nat.mul_add, Nat.add_mul, Nat.mul_assoc] at several ⊢
      omega

/-- Expressions that are expanded each by itself are bounded as the deepest of them is. -/
theorem nodes_map_le (positive : 1 ≤ factor)
    (bounded : ∀ item ∈ list, Bounded limit factor item)
    (deep : ∀ item ∈ list, item.nesting ≤ level) :
    nodeCountOfAll (list.map fun item => (unrollWithin limit item).1) ≤
      factor ^ level * nodeCountOfAll list +
        hollowCountOfAll (list.map fun item => (unrollWithin limit item).1) := by
  induction list with
  | nil => exact Nat.zero_le _
  | cons item rest inductionHypothesis =>
      rw [List.forall_mem_cons] at bounded deep
      have known := inductionHypothesis bounded.2 deep.2
      have power : factor ^ item.nesting ≤ factor ^ level :=
        Nat.pow_le_pow_right positive deep.1
      have here := bounded.1.byNesting.trans
        (Nat.add_le_add_right (Nat.mul_le_mul_right item.nodeCount power) _)
      simp only [List.map_cons, nodeCountOfAll_cons, hollowCountOfAll_cons, Nat.mul_add]
      omega

/-- A list of bounded elements is bounded by how deep repetitions are nested in it. -/
theorem nodes_unroll_le_of_bounded (positive : 1 ≤ factor) (enough : limit ≤ factor)
    (bounded : ∀ element ∈ list, Bounded limit factor element) :
    nodeCountOfAll (unroll limit list).1 ≤
      factor ^ nestingOfAll list * nodeCountOfAll list +
        hollowCountOfAll (unroll limit list).1 := by
  unfold nestingOfAll
  cases repeated : anyRepeats list with
  | false =>
      rw [anyRepeats_eq_false_iff] at repeated
      rw [unroll_eq_map_of_plain limit fun element member =>
        isRepetition_eq_false_of_repeats (repeated element member)]
      refine nodes_map_le positive bounded fun item member => ?_
      unfold nesting
      rw [repeated item member]
      exact levels_le_of_mem member
  | true =>
      exact (copiesOf_unroll limit list).nodes_le positive enough bounded
        fun _ member => levels_le_of_mem member

theorem hollowCount_group_of_hollow {items : List Expression}
    (hollow : (flatten items).length = 0) (token : Token) :
    (Expression.group items token).hollowCount = nodeCountOfAll items + 1 := by
  rw [hollowCount, if_pos (by rw [flatSizeFrom_eq, hollow])]

theorem hollowCount_group_of_solid {items : List Expression}
    (solid : (flatten items).length ≠ 0) (token : Token) :
    (Expression.group items token).hollowCount = hollowCountOfAll items := by
  rw [hollowCount, if_neg (by rw [flatSizeFrom_eq, Nat.zero_add]; exact solid)]

/-- A group of bounded items is bounded. Of one that holds nothing, nothing is left to bound. -/
theorem bounded_group (positive : 1 ≤ factor) (enough : limit ≤ factor) (token : Token)
    (bounded : ∀ item ∈ list, Bounded limit factor item) :
    Bounded limit factor (.group list token) := by
  have size := (copiesOf_unroll limit list).nodes_le_size positive bounded
    fun _ member => levels_le_of_mem member
  have nested := nodes_unroll_le_of_bounded positive enough bounded
  constructor
  · rw [unrollWithin_group, flatSize_group, nodeCount_group, nodeCount_group, levels]
    by_cases hollow : (flatten (unroll limit list).1).length = 0
    · rw [hollowCount_group_of_hollow hollow]
      exact Nat.le_add_left _ _
    · rw [hollowCount_group_of_solid hollow, Nat.mul_add, Nat.mul_add, Nat.mul_one]
      have product : 1 ≤ (flatten (unroll limit list).1).length * factor ^ levelsOfAll list :=
        Nat.mul_pos (Nat.pos_of_ne_zero hollow) (Nat.pow_pos positive)
      omega
  · rw [unrollWithin_group, nodeCount_group, nodeCount_group, nesting_group]
    by_cases hollow : (flatten (unroll limit list).1).length = 0
    · rw [hollowCount_group_of_hollow hollow]
      exact Nat.le_add_left _ _
    · rw [hollowCount_group_of_solid hollow, Nat.mul_add, Nat.mul_one]
      have power : 1 ≤ factor ^ nestingOfAll list := Nat.pow_pos positive
      omega

theorem bounded_call (positive : 1 ≤ factor) (name : String) (token : Token)
    (bounded : ∀ argument ∈ list, Bounded limit factor argument) :
    Bounded limit factor (.call name list token) := by
  have each := nodes_map_le positive bounded fun _ member => nesting_le_of_mem member
  have power : 1 ≤ factor ^ nestingOfEach list := Nat.pow_pos positive
  have single : (unrollWithin limit (.call name list token)).1.nodeCount ≤
      factor ^ nestingOfEach list * (Expression.call name list token).nodeCount +
        (unrollWithin limit (.call name list token)).1.hollowCount := by
    rw [unrollWithin, unrollArguments_eq, nodeCount_call, nodeCount_call, hollowCount,
      Nat.mul_add, Nat.mul_one]
    omega
  refine ⟨?_, single⟩
  have one : (unrollWithin limit (.call name list token)).1.flatSize = 1 := rfl
  rw [one, Nat.one_mul]
  exact single

theorem bounded_hold (positive : 1 ≤ factor) {inner : Expression} (token : Token)
    (bounded : Bounded limit factor inner) : Bounded limit factor (.hold inner token) := by
  have power : 1 ≤ factor ^ inner.nesting := Nat.pow_pos positive
  have held := bounded.byNesting
  have single : (unrollWithin limit (.hold inner token)).1.nodeCount ≤
      factor ^ inner.nesting * (Expression.hold inner token).nodeCount +
        (unrollWithin limit (.hold inner token)).1.hollowCount := by
    rw [unrollWithin, nodeCount_hold, nodeCount_hold, hollowCount, Nat.mul_add, Nat.mul_one]
    omega
  refine ⟨?_, single⟩
  have one : (unrollWithin limit (.hold inner token)).1.flatSize = 1 := rfl
  rw [one, Nat.one_mul]
  exact single

/-- Every expression is bounded, by a factor that is no less than the limit and not zero. -/
theorem bounded (positive : 1 ≤ factor) (enough : limit ≤ factor) (expression : Expression) :
    Bounded limit factor expression := by
  induction expression using partsInduction with
  | call name arguments token others => exact bounded_call positive name token others
  | group items token others => exact bounded_group positive enough token others
  | hold inner token here => exact bounded_hold positive token here
  | repetition count token =>
      refine ⟨Nat.le_refl _, ?_⟩
      change 1 ≤ factor ^ 1 * 1
      rwa [Nat.mul_one, Nat.pow_one]
  | _ => exact ⟨Nat.le_refl _, Nat.le_refl _⟩

end Bounds

/-! ### Main results -/

/-- **How large a list becomes.** Each level of nested repetitions multiplies the number of
expressions by no more than the limit, or by one where that is zero. Only groups that hold
nothing may come on top of this. So where no repetition stands within the argument or the hold
of a repeated list, and no such group is left, the limit is the only factor. -/
theorem nodes_unroll_le_nesting (limit : Nat) (list : List Expression) :
    nodeCountOfAll (unroll limit list).1 ≤
        max 1 limit ^ nestingOfAll list * nodeCountOfAll list +
          hollowCountOfAll (unroll limit list).1 ∧
      (nestingOfAll list ≤ 1 → hollowCountOfAll (unroll limit list).1 = 0 →
        nodeCountOfAll (unroll limit list).1 ≤ max 1 limit * nodeCountOfAll list) := by
  have positive : 1 ≤ max 1 limit := Nat.le_max_left 1 limit
  have enough : limit ≤ max 1 limit := Nat.le_max_right 1 limit
  have all : nodeCountOfAll (unroll limit list).1 ≤ _ :=
    nodes_unroll_le_of_bounded positive enough fun element _ => bounded positive enough element
  refine ⟨all, fun flat solid => all.trans ?_⟩
  rw [solid, Nat.add_zero]
  refine Nat.mul_le_mul_right _ ((Nat.pow_le_pow_right positive flat).trans_eq ?_)
  exact Nat.pow_one _

/-- The list `[[do]*4 m(re)]*2`. -/
def phrase : List Expression :=
  [.group
    [.group [.note ⟨.ut, 0, none, none, default⟩] default, .repetition 4 default,
      .call "m" [.note ⟨.re, 0, none, none, default⟩] default] default,
    .repetition 2 default]

theorem nodes_unroll_le_nesting_phrase :
    nestingOfAll phrase ≤ 1 ∧ hollowCountOfAll (unroll 10 phrase).1 = 0 ∧
      nodeCountOfAll (unroll 10 phrase).1 ≤ 10 * 7 := by
  have flat : nestingOfAll phrase ≤ 1 := by decide
  have solid : hollowCountOfAll (unroll 10 phrase).1 = 0 := by decide
  exact ⟨flat, solid, (nodes_unroll_le_nesting 10 phrase).2 flat solid⟩

/-- The list `[m([[do]*4])]*4`, in which the argument of a repeated call holds a repetition. -/
def repeatedCall : List Expression :=
  [.group
    [.call "m"
      [.group
        [.group [.note ⟨.ut, 0, none, none, default⟩] default, .repetition 4 default] default]
      default] default,
    .repetition 4 default]

/-- The limit alone is not the factor: of seven expressions there become forty-four under a
limit of four. -/
theorem not_nodes_unroll_le_limit :
    ¬ ∀ (limit : Nat) (list : List Expression),
      nodeCountOfAll (unroll limit list).1 ≤ max 1 limit * nodeCountOfAll list := by
  intro bounded
  have four := bounded 4 repeatedCall
  exact absurd four (by decide)

/-! ### The bound is reached -/

/-- A note within repeated calls, each in the argument of the next one. -/
def nested (count : Nat) : Nat → List Expression
  | 0 => [.note ⟨.ut, 0, none, none, default⟩]
  | depth + 1 =>
      [.call "m" [.group (nested count depth) default] default, .repetition count default]

theorem nodeCountOfAll_nested (count depth : Nat) :
    nodeCountOfAll (nested count depth) = 3 * depth + 1 := by
  induction depth with
  | zero => rfl
  | succ depth inductionHypothesis =>
      have sign : (Expression.repetition count default).nodeCount = 1 := rfl
      simp only [nested, nodeCountOfAll_cons, nodeCountOfAll_nil, nodeCount_call,
        nodeCount_group, sign, inductionHypothesis]
      omega

theorem nestingOfAll_nested (count depth : Nat) : nestingOfAll (nested count depth) = depth := by
  induction depth with
  | zero => rfl
  | succ depth inductionHypothesis =>
      have inner : nestingOfEach [.group (nested count depth) default] = depth := by
        rw [nestingOfEach, nestingOfEach, Nat.max_zero]
        exact inductionHypothesis
      change max (nestingOfEach [.group (nested count depth) default]) (max 0 0) + 1 = depth + 1
      rw [inner, Nat.max_self, Nat.max_zero]

/-- Every level of calls is copied as often as the limit allows. -/
theorem unroll_nested_succ (limit depth : Nat) :
    unroll limit (nested limit (depth + 1)) =
      (List.replicate limit
        (.call "m" [.group (unroll limit (nested limit depth)).1 default] default),
        (unroll limit (nested limit depth)).2) := by
  let call : Expression := .call "m" [.group (nested limit depth) default] default
  have alone : unroll limit ([] ++ [call]) = _ := unroll_concat_of_plain rfl
  have room : (flatten []).length + limit * (unrollWithin limit call).1.flatSize ≤ limit := by
    change 0 + limit * 1 ≤ limit
    omega
  change unroll limit (([] ++ [call]) ++ [.repetition limit default]) = _
  rw [unroll_concat_of_room (congrArg Prod.fst alone) room, alone]
  dsimp only [call]
  rw [unrollWithin, unrollArguments_eq]
  simp [unroll_nil, unrollWithin_group]

/-- The bound of each level is reached: for every limit and every depth there is a list of few
expressions, so deep, of which the limit makes a factor at every level, without a problem. -/
theorem exists_list_of_nesting (limit depth : Nat) :
    ∃ list, nestingOfAll list = depth ∧ nodeCountOfAll list = 3 * depth + 1 ∧
      (unroll limit list).2 = [] ∧ limit ^ depth ≤ nodeCountOfAll (unroll limit list).1 := by
  refine ⟨nested limit depth, nestingOfAll_nested limit depth,
    nodeCountOfAll_nested limit depth, ?_⟩
  induction depth with
  | zero => exact ⟨rfl, Nat.le_refl _⟩
  | succ depth inductionHypothesis =>
      rw [unroll_nested_succ]
      refine ⟨inductionHypothesis.1, ?_⟩
      rw [nodeCountOfAll_replicate, Nat.pow_succ, Nat.mul_comm]
      refine Nat.mul_le_mul_left limit (inductionHypothesis.2.trans ?_)
      simp only [nodeCount_call, nodeCount_group, nodeCountOfAll_cons, nodeCountOfAll_nil]
      omega

/-- Groups that hold nothing are not bounded at all: under every limit, a group without items
is copied any number of times without a problem. -/
theorem exists_list_of_hollow_groups (limit count : Nat) :
    ∃ list, nodeCountOfAll list = 2 ∧ (unroll limit list).2 = [] ∧
      nodeCountOfAll (unroll limit list).1 = count := by
  let group : Expression := .group [] default
  have alone : unroll limit ([] ++ [group]) = ([group], []) := rfl
  have room : (flatten []).length + count * group.flatSize ≤ limit := by
    change 0 + count * 0 ≤ limit
    omega
  refine ⟨[] ++ [group] ++ [.repetition count default], rfl, ?_⟩
  rw [unroll_concat_of_room (congrArg Prod.fst alone) room, alone]
  refine ⟨rfl, ?_⟩
  change nodeCountOfAll (List.replicate count group) = count
  rw [nodeCountOfAll_replicate]
  exact Nat.mul_one count

end Solfege.Expression
