import Solfege.Expansion.Group
import Solfege.Expansion.Repetition
import Solfege.Proofs.Inlining.Settled

/-!
Contract: what a pass took away does not come back, and without it the pass has nothing
to do.

Owns:
- the lists that lack a sort of element, also in the groups, arguments and holds within;
- the proof that repetitions are gone once they were expanded, and that such a list is
  expanded to itself under every limit;
- the same for groups and the splicing of them, which brings in no repetition.

Does not own: whether a repetition is refused. One that is refused is gone, too.

A list counts as such where its elements can be repeated or spliced, so the arguments of a
call and what is held do not: each stands for itself, whatever sort it is of.
-/

namespace Solfege.Expression

/-! ### Lists that lack a sort of element -/

def isRepetition : Expression → Bool
  | .repetition _ _ => true
  | _ => false

def isGroup : Expression → Bool
  | .group _ _ => true
  | _ => false

mutual

/-- No group within the expression has an item of the sort. -/
def Lacks (sort : Expression → Bool) : Expression → Prop
  | .group items _ => (∀ item ∈ items, sort item = false) ∧ AllLack sort items
  | .call _ arguments _ => AllLack sort arguments
  | .hold inner _ => Lacks sort inner
  | _ => True

def AllLack (sort : Expression → Bool) : List Expression → Prop
  | [] => True
  | item :: rest => Lacks sort item ∧ AllLack sort rest

end

theorem allLack_iff {sort : Expression → Bool} {list : List Expression} :
    AllLack sort list ↔ ∀ item ∈ list, Lacks sort item := by
  induction list with
  | nil => simp [AllLack]
  | cons item rest inductionHypothesis =>
      rw [AllLack, inductionHypothesis, List.forall_mem_cons]

/-- The element is not of the sort, and no group within it has an item of the sort. -/
structure Without (sort : Expression → Bool) (item : Expression) : Prop where
  other : sort item = false
  inside : Lacks sort item

theorem lacks_group_iff {sort : Expression → Bool} {items : List Expression} {token : Token} :
    Lacks sort (.group items token) ↔ ∀ item ∈ items, Without sort item := by
  rw [Lacks, allLack_iff]
  constructor
  · intro lacking item member
    exact ⟨lacking.1 item member, lacking.2 item member⟩
  · intro without
    exact ⟨fun item member => (without item member).other,
      fun item member => (without item member).inside⟩

/-- What inlining emits has neither sort, and no groups within. -/
theorem Settled.without {expression : Expression} (settled : Settled expression) :
    Without isRepetition expression ∧ Without isGroup expression := by
  cases settled with
  | placeholder token => exact ⟨⟨rfl, trivial⟩, ⟨rfl, trivial⟩⟩
  | playable playable =>
      cases playable with
      | sounding sounding => cases sounding <;> exact ⟨⟨rfl, trivial⟩, ⟨rfl, trivial⟩⟩
      | hold sounding token => cases sounding <;> exact ⟨⟨rfl, trivial⟩, ⟨rfl, trivial⟩⟩
      | _ => exact ⟨⟨rfl, trivial⟩, ⟨rfl, trivial⟩⟩

/-! ### Repetitions -/

theorem isRepetition_eq_false_iff {expression : Expression} :
    expression.isRepetition = false ↔ ∀ count token, expression ≠ .repetition count token := by
  cases expression <;> simp [isRepetition]

theorem isRepetition_unrollWithin (limit : Nat) (expression : Expression) :
    (unrollWithin limit expression).1.isRepetition = expression.isRepetition := by
  cases expression <;> rfl

/-- Whether a repetition is refused or not, it adds nothing but copies. -/
theorem made_repeatLatest {limit count : Nat} {token : Token} {state : Unrolling}
    {holds : Expression → Prop} (known : ∀ item ∈ state.made, holds item) :
    ∀ item ∈ (state.repeatLatest limit count token).made, holds item := by
  unfold Unrolling.repeatLatest
  split
  · exact known
  · rename_i latest earlier made
    dsimp only
    split
    · exact known
    · rw [made, List.forall_mem_cons] at known
      refine List.forall_mem_append.mpr ⟨?_, known.2⟩
      intro item copy
      rw [List.eq_of_mem_replicate copy]
      exact known.1

mutual

/-- Expanded repetitions are gone. -/
theorem lacks_unrollWithin (limit : Nat) (expression : Expression) :
    Lacks isRepetition (unrollWithin limit expression).1 := by
  cases expression with
  | group items token =>
      apply lacks_group_iff.mpr
      intro item reversed
      exact without_unrollOnto limit items (List.forall_mem_nil _) item
        (List.mem_reverse.mp reversed)
  | call name arguments token => exact allLack_unrollArguments limit arguments
  | hold inner token => exact lacks_unrollWithin limit inner
  | _ => trivial

theorem allLack_unrollArguments (limit : Nat) (arguments : List Expression) :
    AllLack isRepetition (unrollArguments limit arguments).1 := by
  cases arguments with
  | nil => trivial
  | cons argument rest =>
      exact ⟨lacks_unrollWithin limit argument, allLack_unrollArguments limit rest⟩

theorem without_unrollOnto (limit : Nat) (list : List Expression) {state : Unrolling}
    (known : ∀ item ∈ state.made, Without isRepetition item) :
    ∀ item ∈ (unrollOnto limit state list).made, Without isRepetition item := by
  cases list with
  | nil => exact known
  | cons element rest =>
      rcases repetition_or_plain element with ⟨count, token, rfl⟩ | plain
      · exact without_unrollOnto limit rest (made_repeatLatest known)
      · have other : (unrollWithin limit element).1.isRepetition = false := by
          rw [isRepetition_unrollWithin]
          exact isRepetition_eq_false_iff.mpr plain
        rw [unrollOnto_cons_of_plain plain]
        apply without_unrollOnto limit rest
        exact List.forall_mem_cons.mpr ⟨⟨other, lacks_unrollWithin limit element⟩, known⟩

end

theorem without_unroll (limit : Nat) (list : List Expression) :
    ∀ item ∈ (unroll limit list).1, Without isRepetition item := by
  intro item reversed
  exact without_unrollOnto limit list (List.forall_mem_nil _) item (List.mem_reverse.mp reversed)

mutual

/-- Without repetitions there is nothing to expand. -/
theorem unrollWithin_of_lacks (limit : Nat) (expression : Expression)
    (lacking : Lacks isRepetition expression) :
    unrollWithin limit expression = (expression, []) := by
  cases expression with
  | group items token =>
      obtain ⟨made, problems⟩ :=
        unrollOnto_of_without limit items (lacks_group_iff.mp lacking) ⟨[], 0, []⟩
      rw [unrollWithin, made, problems, List.append_nil, List.reverse_reverse]
  | call name arguments token =>
      rw [unrollWithin, unrollArguments_of_allLack limit arguments lacking]
  | hold inner token => rw [unrollWithin, unrollWithin_of_lacks limit inner lacking]
  | _ => rfl

theorem unrollArguments_of_allLack (limit : Nat) (arguments : List Expression)
    (lacking : AllLack isRepetition arguments) :
    unrollArguments limit arguments = (arguments, []) := by
  cases arguments with
  | nil => rfl
  | cons argument rest =>
      rw [unrollArguments, unrollWithin_of_lacks limit argument lacking.1,
        unrollArguments_of_allLack limit rest lacking.2]
      rfl

theorem unrollOnto_of_without (limit : Nat) (list : List Expression)
    (without : ∀ item ∈ list, Without isRepetition item) (state : Unrolling) :
    (unrollOnto limit state list).made = list.reverse ++ state.made ∧
      (unrollOnto limit state list).problems = state.problems := by
  cases list with
  | nil => exact ⟨rfl, rfl⟩
  | cons element rest =>
      obtain ⟨here, others⟩ := List.forall_mem_cons.mp without
      obtain ⟨made, problems⟩ :=
        unrollOnto_of_without limit rest others (state.add (element, []))
      rw [unrollOnto_cons_of_plain (isRepetition_eq_false_iff.mp here.other),
        unrollWithin_of_lacks limit element here.inside, made, problems, List.reverse_cons,
        List.append_assoc]
      exact ⟨rfl, List.append_nil _⟩

end

theorem unroll_of_without (limit : Nat) {list : List Expression}
    (without : ∀ item ∈ list, Without isRepetition item) :
    unroll limit list = (list, []) := by
  obtain ⟨made, problems⟩ := unrollOnto_of_without limit list without ⟨[], 0, []⟩
  unfold unroll
  dsimp only
  rw [made, problems, List.append_nil, List.reverse_reverse]

/-! ### Groups -/

theorem isGroup_settle (expression : Expression) :
    (settle expression).isGroup = expression.isGroup := by
  cases expression <;> rfl

theorem isRepetition_settle (expression : Expression) :
    (settle expression).isRepetition = expression.isRepetition := by
  cases expression <;> rfl

/-- Of an expression that is no group, and not of the sort before, splicing makes none of
the sort after. -/
def KeepsOut (before after : Expression → Bool) : Prop :=
  ∀ expression, before expression = false → isGroup expression = false →
    after (settle expression) = false

section Splicing

variable {before after : Expression → Bool}

mutual

/-- What splicing keeps out of the elements, it keeps out of all lists. -/
theorem lacks_settle (keeps : KeepsOut before after) (expression : Expression)
    (lacking : Lacks before expression) : Lacks after (settle expression) := by
  cases expression with
  | group items token =>
      apply lacks_group_iff.mpr
      intro item reversed
      exact without_spliceAllOnto keeps items (lacks_group_iff.mp lacking)
        (List.forall_mem_nil _) item (List.mem_reverse.mp reversed)
  | call name arguments token => exact allLack_settleAll keeps arguments lacking
  | hold inner token => exact lacks_settle keeps inner lacking
  | _ => trivial

theorem allLack_settleAll (keeps : KeepsOut before after) (arguments : List Expression)
    (lacking : AllLack before arguments) : AllLack after (settleAll arguments) := by
  cases arguments with
  | nil => trivial
  | cons argument rest =>
      exact ⟨lacks_settle keeps argument lacking.1, allLack_settleAll keeps rest lacking.2⟩

theorem without_spliceOnto (keeps : KeepsOut before after) (expression : Expression)
    (without : Without before expression) {spliced : List Expression}
    (known : ∀ item ∈ spliced, Without after item) :
    ∀ item ∈ spliceOnto spliced expression, Without after item := by
  cases expression with
  | group items token =>
      exact without_spliceAllOnto keeps items (lacks_group_iff.mp without.inside) known
  | call name arguments token =>
      exact List.forall_mem_cons.mpr
        ⟨⟨keeps _ without.other rfl, allLack_settleAll keeps arguments without.inside⟩, known⟩
  | hold inner token =>
      exact List.forall_mem_cons.mpr
        ⟨⟨keeps _ without.other rfl, lacks_settle keeps inner without.inside⟩, known⟩
  | _ => exact List.forall_mem_cons.mpr ⟨⟨keeps _ without.other rfl, trivial⟩, known⟩

theorem without_spliceAllOnto (keeps : KeepsOut before after) (list : List Expression)
    (without : ∀ item ∈ list, Without before item) {spliced : List Expression}
    (known : ∀ item ∈ spliced, Without after item) :
    ∀ item ∈ spliceAllOnto spliced list, Without after item := by
  cases list with
  | nil => exact known
  | cons item rest =>
      obtain ⟨here, others⟩ := List.forall_mem_cons.mp without
      exact without_spliceAllOnto keeps rest others (without_spliceOnto keeps item here known)

end

theorem without_flatten (keeps : KeepsOut before after) {list : List Expression}
    (without : ∀ item ∈ list, Without before item) :
    ∀ item ∈ flatten list, Without after item := by
  intro item reversed
  exact without_spliceAllOnto keeps list without (List.forall_mem_nil _) item
    (List.mem_reverse.mp reversed)

end Splicing

/-- Every element is without those of a sort that there is nothing of. -/
theorem without_nothing (expression : Expression) : Without (fun _ => false) expression where
  other := rfl
  inside := by
    induction expression using Expression.rec (motive_2 := AllLack fun _ => false) with
    | group items token others => exact ⟨fun _ _ => rfl, others⟩
    | call name arguments token others => exact others
    | hold inner token here => exact here
    | cons item rest here others => exact ⟨here, others⟩
    | _ => trivial

/-- Spliced groups are gone. -/
theorem without_flatten_groups (list : List Expression) :
    ∀ item ∈ flatten list, Without isGroup item := by
  have anything : ∀ item ∈ list, Without (fun _ => false) item :=
    fun item _ => without_nothing item
  refine without_flatten (fun expression _ plain => ?_) anything
  rw [isGroup_settle]
  exact plain

/-- Splicing brings in no repetition. -/
theorem without_flatten_repetitions {list : List Expression}
    (without : ∀ item ∈ list, Without isRepetition item) :
    ∀ item ∈ flatten list, Without isRepetition item := by
  refine without_flatten (fun expression other _ => ?_) without
  rw [isRepetition_settle]
  exact other

mutual

/-- Without groups there is nothing to splice. -/
theorem settle_of_lacks (expression : Expression) (lacking : Lacks isGroup expression) :
    settle expression = expression := by
  cases expression with
  | group items token =>
      rw [settle, spliceAllOnto_of_without items (lacks_group_iff.mp lacking), List.append_nil,
        List.reverse_reverse]
  | call name arguments token => rw [settle, settleAll_of_allLack arguments lacking]
  | hold inner token => rw [settle, settle_of_lacks inner lacking]
  | _ => rfl

theorem settleAll_of_allLack (arguments : List Expression)
    (lacking : AllLack isGroup arguments) : settleAll arguments = arguments := by
  cases arguments with
  | nil => rfl
  | cons argument rest =>
      rw [settleAll, settle_of_lacks argument lacking.1, settleAll_of_allLack rest lacking.2]

theorem spliceOnto_of_without (expression : Expression) (without : Without isGroup expression)
    (spliced : List Expression) : spliceOnto spliced expression = expression :: spliced := by
  cases expression with
  | group items token => exact absurd without.other (by simp [isGroup])
  | call name arguments token =>
      rw [spliceOnto, settleAll_of_allLack arguments without.inside]
  | hold inner token => rw [spliceOnto, settle_of_lacks inner without.inside]
  | _ => rfl

theorem spliceAllOnto_of_without (list : List Expression)
    (without : ∀ item ∈ list, Without isGroup item) (spliced : List Expression) :
    spliceAllOnto spliced list = list.reverse ++ spliced := by
  cases list with
  | nil => rfl
  | cons item rest =>
      obtain ⟨here, others⟩ := List.forall_mem_cons.mp without
      rw [spliceAllOnto, spliceOnto_of_without item here, spliceAllOnto_of_without rest others,
        List.reverse_cons, List.append_assoc]
      rfl

end

theorem flatten_of_without {list : List Expression}
    (without : ∀ item ∈ list, Without isGroup item) : flatten list = list := by
  unfold flatten
  rw [spliceAllOnto_of_without list without, List.append_nil, List.reverse_reverse]

end Solfege.Expression
