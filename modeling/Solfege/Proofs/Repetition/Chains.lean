import Solfege.Proofs.Repetition.Basic
import Solfege.Proofs.Shape.Parts
import Mathlib.Algebra.GroupWithZero.Nat
import Mathlib.Data.List.Induction

/-!
Contract: chains of repetitions behind one element.

Owns:
- the elements of a list, each with the signs that are written directly behind it;
- the number of copies that a chain of signs makes, and the chains that leave a copy for each
  of their signs;
- the proof that such chains concern only the element that they are written behind, and that
  a limit which is large enough leaves a score of them without problems.

Does not own: chains that go on when no copy is left. There the next sign repeats what stands
last among the elements made so far, which is a copy of another element, or there is none.
-/

namespace Solfege

namespace Expression

/-! ### Elements with their signs -/

/-- A repetition, apart from the list that it stands in. -/
structure Sign where
  count : Nat
  token : Token

def Sign.written (sign : Sign) : Expression := .repetition sign.count sign.token

/-- An element and the repetitions directly behind it. -/
structure Block where
  element : Expression
  signs : List Sign

namespace Block

def written (block : Block) : List Expression := block.element :: block.signs.map Sign.written

def counts (block : Block) : List Nat := block.signs.map Sign.count

end Block

/-- The repetitions in front of every element of a list, and the blocks behind them. -/
def split : List Expression → List Sign × List Block
  | [] => ([], [])
  | .repetition count token :: rest => (⟨count, token⟩ :: (split rest).1, (split rest).2)
  | element :: rest => ([], ⟨element, (split rest).1⟩ :: (split rest).2)

def blocks (list : List Expression) : List Block := (split list).2

theorem split_cons_of_plain {element : Expression} {rest : List Expression}
    (plain : ∀ count token, element ≠ .repetition count token) :
    split (element :: rest) = ([], ⟨element, (split rest).1⟩ :: (split rest).2) := by
  cases element with
  | repetition count token => exact absurd rfl (plain count token)
  | _ => rfl

/-- Nothing of a list is lost. -/
theorem written_split (list : List Expression) :
    (split list).1.map Sign.written ++ (split list).2.flatMap Block.written = list := by
  induction list with
  | nil => rfl
  | cons element rest inductionHypothesis =>
      rcases repetition_or_plain element with ⟨count, token, rfl⟩ | plain
      · exact congrArg (Expression.repetition count token :: ·) inductionHypothesis
      · rw [split_cons_of_plain plain, List.map_nil, List.nil_append, List.flatMap_cons]
        exact congrArg (element :: ·) inductionHypothesis

/-- The blocks of a list begin with those of its elements that are no repetitions. -/
theorem element_of_mem_blocks {list : List Expression} :
    ∀ block ∈ blocks list, block.element ∈ list ∧ block.element.isRepetition = false := by
  induction list with
  | nil => exact List.forall_mem_nil _
  | cons element rest inductionHypothesis =>
      have others : ∀ block ∈ blocks rest,
          block.element ∈ element :: rest ∧ block.element.isRepetition = false :=
        fun block member => (inductionHypothesis block member).imp_left
          (List.mem_cons_of_mem element)
      rcases repetition_or_plain element with ⟨count, token, rfl⟩ | plain
      · exact others
      · unfold blocks
        rw [split_cons_of_plain plain, List.forall_mem_cons]
        exact ⟨⟨List.mem_cons_self, isRepetition_eq_false_iff.mpr plain⟩, others⟩

theorem plain_of_mem_blocks {list : List Expression} :
    ∀ block ∈ blocks list, block.element.isRepetition = false :=
  fun block member => (element_of_mem_blocks block member).2

/-- In a list as it is read, every repetition belongs to a block. -/
theorem written_blocks {list : List Expression} (arranged : Arranged list) :
    (blocks list).flatMap Block.written = list := by
  have none : (split list).1 = [] := by
    cases list with
    | nil => rfl
    | cons element rest =>
        rcases repetition_or_plain element with ⟨count, token, rfl⟩ | plain
        · obtain ⟨earlier, member, _⟩ := (arranged [] _ rest rfl).1 rfl
          contradiction
        · rw [split_cons_of_plain plain]
  have whole := written_split list
  rwa [none] at whole

/-! ### Counts -/

/-- The number of copies behind a chain of repetitions. Each of them takes the last copy away
and puts as many as it says in its place. -/
def copiesAfter (counts : List Nat) : Nat :=
  counts.foldl (fun copies count => copies - 1 + count) 1

theorem copiesAfter_concat (counts : List Nat) (count : Nat) :
    copiesAfter (counts ++ [count]) = copiesAfter counts - 1 + count := by
  unfold copiesAfter
  rw [List.foldl_append, List.foldl_cons, List.foldl_nil]

/-- Each count of a chain has a copy to repeat. -/
def Lasting (counts : List Nat) : Prop :=
  ∀ place < counts.length, copiesAfter (counts.take place) ≠ 0

instance (counts : List Nat) : Decidable (Lasting counts) :=
  inferInstanceAs (Decidable (∀ place < counts.length, _))

theorem Lasting.of_concat {counts : List Nat} {count : Nat}
    (lasting : Lasting (counts ++ [count])) : Lasting counts ∧ copiesAfter counts ≠ 0 := by
  have length : (counts ++ [count]).length = counts.length + 1 := List.length_append
  constructor
  · intro place inside
    have here := lasting place (by omega)
    rwa [List.take_append_of_le_length (Nat.le_of_lt inside)] at here
  · have here := lasting counts.length (by omega)
    rwa [List.take_left] at here

/-- Of a chain that lasts, the copies are one and what each count adds to the one it takes. -/
theorem Lasting.copiesAfter_add_length {counts : List Nat} (lasting : Lasting counts) :
    copiesAfter counts + counts.length = counts.sum + 1 := by
  induction counts using List.reverseRecOn with
  | nil => rfl
  | append_singleton counts count inductionHypothesis =>
      obtain ⟨before, left⟩ := lasting.of_concat
      have sum := inductionHypothesis before
      rw [copiesAfter_concat, List.length_append, List.length_singleton, List.sum_append,
        List.sum_singleton]
      omega

namespace Block

def copies (block : Block) : Nat := copiesAfter block.counts

def Lasting (block : Block) : Prop := Expression.Lasting block.counts

instance (block : Block) : Decidable block.Lasting :=
  inferInstanceAs (Decidable (Expression.Lasting block.counts))

end Block

/-! ### One chain -/

section Chains

variable {limit : Nat} {front : List Expression} {element : Expression}

/-- A repetition behind several copies of an element adds to them and to nothing else, unless
there is no room. -/
theorem unroll_concat_of_copies {list earlier : List Expression} {latest : Expression}
    {copies count : Nat} {token : Token} (left : copies ≠ 0)
    (made : (unroll limit list).1 = earlier ++ List.replicate copies latest) :
    ((unroll limit (list ++ [.repetition count token])).2 = [] →
      (unroll limit (list ++ [.repetition count token])).1 =
        earlier ++ List.replicate (copies - 1 + count) latest) ∧
    ((unroll limit list).2 = [] →
      (flatten earlier).length + (copies - 1 + count) * latest.flatSize ≤ limit →
        (unroll limit (list ++ [.repetition count token])).2 = []) := by
  obtain ⟨others, rfl⟩ := Nat.exists_eq_succ_of_ne_zero left
  rw [Nat.succ_eq_add_one, List.replicate_succ', ← List.append_assoc] at made
  have size : (flatten (earlier ++ List.replicate others latest)).length +
      count * latest.flatSize =
      (flatten earlier).length + (others + 1 - 1 + count) * latest.flatSize := by
    rw [flatten_append, List.length_append, length_flatten_replicate, Nat.add_sub_cancel,
      Nat.add_mul, Nat.add_assoc]
  by_cases room : (flatten (earlier ++ List.replicate others latest)).length +
      count * latest.flatSize ≤ limit
  · rw [unroll_concat_of_room made room]
    refine ⟨fun _ => ?_, fun silent _ => silent⟩
    rw [List.append_assoc, List.replicate_append_replicate, Nat.succ_sub_one]
  · rw [unroll_concat_of_no_room made (Nat.not_le.mp room)]
    refine ⟨fun silent => ?_, fun _ enough => absurd (size ▸ enough) room⟩
    exact absurd silent (List.append_ne_nil_of_right_ne_nil _ (List.cons_ne_nil _ _))

/-- The signs behind an element, from the last one on. -/
theorem append_chain_concat (signs : List Sign) (sign : Sign) :
    front ++ element :: (signs ++ [sign]).map Sign.written =
      (front ++ element :: signs.map Sign.written) ++
        [.repetition sign.count sign.token] := by
  rw [List.map_append, List.append_assoc]
  rfl

/-- A chain that lasts makes copies of its element, behind what there is already. -/
theorem unroll_chain (plain : element.isRepetition = false) {signs : List Sign}
    (lasting : Lasting (signs.map Sign.count))
    (silent : (unroll limit (front ++ element :: signs.map Sign.written)).2 = []) :
    (unroll limit (front ++ element :: signs.map Sign.written)).1 =
      (unroll limit front).1 ++
        List.replicate (copiesAfter (signs.map Sign.count)) (unrollWithin limit element).1 := by
  induction signs using List.reverseRecOn with
  | nil => exact congrArg Prod.fst (unroll_concat_of_plain plain)
  | append_singleton signs sign inductionHypothesis =>
      rw [List.map_append, List.map_singleton] at lasting
      obtain ⟨before, left⟩ := lasting.of_concat
      rw [append_chain_concat] at silent ⊢
      have made := inductionHypothesis before (silent_of_append silent)
      rw [List.map_append, List.map_singleton, copiesAfter_concat]
      exact (unroll_concat_of_copies left made).1 silent

/-- A chain that lasts finds room under a limit that is large enough. -/
theorem exists_silent_chain (plain : element.isRepetition = false) {signs : List Sign}
    (lasting : Lasting (signs.map Sign.count)) (before : (unroll limit front).2 = [])
    (inside : (unrollWithin limit element).2 = []) :
    ∃ enough, (unroll enough (front ++ element :: signs.map Sign.written)).2 = [] := by
  induction signs using List.reverseRecOn with
  | nil =>
      refine ⟨limit, ?_⟩
      rw [List.map_nil, unroll_concat_of_plain plain, before, inside]
      rfl
  | append_singleton signs sign inductionHypothesis =>
      rw [List.map_append, List.map_singleton] at lasting
      obtain ⟨earlierLasting, left⟩ := lasting.of_concat
      obtain ⟨small, silent⟩ := inductionHypothesis earlierLasting
      have made := unroll_chain plain earlierLasting silent
      -- The size of what is made does not depend on the limit any more, so that the limit
      -- can be chosen behind it.
      let size := (flatten (unroll small front).1).length +
        (copiesAfter (signs.map Sign.count) - 1 + sign.count) *
          (unrollWithin small element).1.flatSize
      have same := unroll_of_le (Nat.le_max_left small size) silent
      rw [← same] at made silent
      rw [append_chain_concat]
      exact ⟨max small size,
        (unroll_concat_of_copies left made).2 silent (Nat.le_max_right small size)⟩

/-! ### Lists -/

/-- Blocks whose chains last become copies of their elements, block by block. -/
theorem unroll_blocks {blocks : List Block}
    (plain : ∀ block ∈ blocks, block.element.isRepetition = false)
    (lasting : ∀ block ∈ blocks, block.Lasting)
    (silent : (unroll limit (blocks.flatMap Block.written)).2 = []) :
    (unroll limit (blocks.flatMap Block.written)).1 =
      blocks.flatMap fun block =>
        List.replicate block.copies (unrollWithin limit block.element).1 := by
  induction blocks using List.reverseRecOn with
  | nil => rfl
  | append_singleton blocks last inductionHypothesis =>
      rw [List.forall_mem_append, List.forall_mem_singleton] at plain lasting
      rw [List.flatMap_append, List.flatMap_singleton] at silent ⊢
      rw [List.flatMap_append, List.flatMap_singleton,
        ← inductionHypothesis plain.1 lasting.1 (silent_of_append silent)]
      exact unroll_chain plain.2 lasting.2 silent

/-- Blocks whose chains last find room under a limit that is large enough. -/
theorem exists_silent_blocks {blocks : List Block}
    (plain : ∀ block ∈ blocks, block.element.isRepetition = false)
    (lasting : ∀ block ∈ blocks, block.Lasting)
    (inside : ∀ block ∈ blocks, (unrollWithin limit block.element).2 = []) :
    ∃ enough, (unroll enough (blocks.flatMap Block.written)).2 = [] := by
  induction blocks using List.reverseRecOn with
  | nil => exact ⟨0, rfl⟩
  | append_singleton blocks last inductionHypothesis =>
      rw [List.forall_mem_append, List.forall_mem_singleton] at plain lasting inside
      obtain ⟨small, silent⟩ := inductionHypothesis plain.1 lasting.1 inside.1
      have before : (unroll (max limit small) (blocks.flatMap Block.written)).2 = [] := by
        rw [unroll_of_le (Nat.le_max_right limit small) silent]
        exact silent
      have here : (unrollWithin (max limit small) last.element).2 = [] := by
        rw [unrollWithin_of_le (Nat.le_max_left limit small) _ inside.2]
        exact inside.2
      rw [List.flatMap_append, List.flatMap_singleton]
      exact exists_silent_chain plain.2 lasting.2 before here

end Chains

/-! ### Lists within lists -/

/-- Every repetition of the list belongs to an element and has a copy of it to repeat. -/
structure Repeatable (list : List Expression) : Prop where
  arranged : Arranged list
  lasting : ∀ block ∈ blocks list, block.Lasting

section Nested

variable {list body : List Expression} {limit : Nat}

namespace Repeatable

theorem exists_silent (repeatable : Repeatable list)
    (inside : ∀ item ∈ list, ∃ enough, ∀ limit, enough ≤ limit →
      (unrollWithin limit item).2 = []) :
    ∃ enough, ∀ limit, enough ≤ limit → (unroll limit list).2 = [] := by
  obtain ⟨small, silentInside⟩ := exists_bound_of_forall_mem inside
  have elements : ∀ block ∈ blocks list, (unrollWithin small block.element).2 = [] :=
    fun block member => silentInside small (Nat.le_refl small) _
      (element_of_mem_blocks block member).1
  obtain ⟨enough, silent⟩ := exists_silent_blocks plain_of_mem_blocks repeatable.lasting elements
  rw [written_blocks repeatable.arranged] at silent
  refine ⟨enough, fun limit le => ?_⟩
  rw [unroll_of_le le silent]
  exact silent

theorem unroll_eq (repeatable : Repeatable list) (silent : (unroll limit list).2 = []) :
    unroll limit list =
      ((blocks list).flatMap fun block =>
        List.replicate block.copies (unrollWithin limit block.element).1, []) := by
  have whole := written_blocks repeatable.arranged
  have made : (unroll limit ((blocks list).flatMap Block.written)).1 = _ :=
    unroll_blocks plain_of_mem_blocks repeatable.lasting (by rwa [whole])
  rw [whole] at made
  exact Prod.ext made silent

end Repeatable

/-- An expression all of whose groups can be expanded finds room under a limit that is large
enough. -/
theorem exists_silent_within (expression : Expression)
    (repeatable : ∀ items token, Part (.group items token) expression → Repeatable items) :
    ∃ enough, ∀ limit, enough ≤ limit → (unrollWithin limit expression).2 = [] := by
  induction expression using partsInduction with
  | group items token others =>
      exact (repeatable items token (.itself _)).exists_silent fun item member =>
        others item member fun inner place part => repeatable inner place (.item token member part)
  | call name arguments token others =>
      obtain ⟨enough, silent⟩ := exists_bound_of_forall_mem fun argument member =>
        others argument member fun inner place part =>
          repeatable inner place (.argument name token member part)
      refine ⟨enough, fun limit le => ?_⟩
      rw [unrollWithin, unrollArguments_eq]
      exact List.flatMap_eq_nil_iff.mpr (silent limit le)
  | hold inner token here =>
      exact here fun items place part => repeatable items place (.held token part)
  | _ => exact ⟨0, fun _ _ => rfl⟩

/-- Parts of an expression that was expanded without problems have none. -/
theorem Part.silent {part whole : Expression} (isPart : Part part whole)
    (silent : (unrollWithin limit whole).2 = []) : (unrollWithin limit part).2 = [] := by
  induction isPart with
  | itself => exact silent
  | item token member inside inductionHypothesis =>
      exact inductionHypothesis (silent_within silent _ member)
  | argument name token member inside inductionHypothesis =>
      rw [unrollWithin, unrollArguments_eq] at silent
      exact inductionHypothesis (List.flatMap_eq_nil_iff.mp silent _ member)
  | held token inside inductionHypothesis => exact inductionHypothesis silent

theorem ListWithin.silent (within : ListWithin body list)
    (silent : (unroll limit body).2 = []) : (unroll limit list).2 = [] := by
  cases within with
  | itself => exact silent
  | items token member inside => exact inside.silent (silent_within silent _ member)

/-- A body all of whose lists can be expanded finds room under a limit that is large enough. -/
theorem exists_silent_body (repeatable : ∀ list, ListWithin body list → Repeatable list) :
    ∃ enough, ∀ limit, enough ≤ limit → (unroll limit body).2 = [] :=
  (repeatable body .itself).exists_silent fun item member =>
    exists_silent_within item fun items token part =>
      repeatable items (.items token member part)

end Nested

end Expression

/-! ### Main result -/

open Expression

namespace Score

theorem unroll_snd_eq_nil_iff {limit : Nat} {score : Score} :
    (score.unroll limit).2 = [] ↔
      (∀ definition ∈ score.macros, (Expression.unroll limit definition.body).2 = []) ∧
        ∀ movement ∈ score.movements, (Expression.unroll limit movement.expressions).2 = [] := by
  change (changeAll (Macro.unroll limit) score.macros).2 ++
    (changeAll (Track.unroll limit) score.tracks).2 = [] ↔ _
  rw [List.append_eq_nil_iff, changeAll_snd_eq_nil_iff, changeAll_snd_eq_nil_iff, movements,
    List.forall_mem_flatMap]
  exact and_congr Iff.rfl (forall₂_congr fun track _ => changeAll_snd_eq_nil_iff)

/-- **A chain of repetitions concerns the element that it is written behind**, as long as
each of its signs has a copy to repeat. Whatever source is read, a limit that is large enough
then leaves no problem, and each list becomes copies of its elements, block by block. Their
number is known from the counts of the chain alone. -/
theorem unroll_chain_by_chain {settings : Settings} {source : String} {score : Score}
    (wasRead : Compiler.read settings source = .ok score)
    (lasting : ∀ list, score.HasList list → ∀ block ∈ blocks list, block.Lasting) :
    (∃ enough, ∀ limit, enough ≤ limit → (score.unroll limit).2 = []) ∧
      ∀ limit, (score.unroll limit).2 = [] → ∀ list, score.HasList list →
        (blocks list).flatMap Block.written = list ∧
        (∀ block ∈ blocks list, block.element.isRepetition = false ∧
          block.copies + block.counts.length = block.counts.sum + 1) ∧
        Expression.unroll limit list =
          ((blocks list).flatMap fun block =>
            List.replicate block.copies (unrollWithin limit block.element).1, []) := by
  have formed := Compiler.formed_of_read wasRead
  have repeatable : ∀ list, score.HasList list → Repeatable list :=
    fun list hasList => ⟨formed.arranged_of_hasList hasList, lasting list hasList⟩
  constructor
  · obtain ⟨forMacros, macrosSilent⟩ := exists_bound_of_forall_mem
      fun definition (member : definition ∈ score.macros) =>
        exists_silent_body fun list within =>
          repeatable list (.inl ⟨definition, member, within⟩)
    obtain ⟨forMovements, movementsSilent⟩ := exists_bound_of_forall_mem
      fun movement (member : movement ∈ score.movements) =>
        exists_silent_body fun list within =>
          repeatable list (.inr ⟨movement, member, within⟩)
    refine ⟨max forMacros forMovements, fun limit enough => unroll_snd_eq_nil_iff.mpr ⟨?_, ?_⟩⟩
    · exact macrosSilent limit (Nat.le_trans (Nat.le_max_left _ _) enough)
    · exact movementsSilent limit (Nat.le_trans (Nat.le_max_right _ _) enough)
  · intro limit silent list hasList
    obtain ⟨macrosSilent, movementsSilent⟩ := unroll_snd_eq_nil_iff.mp silent
    refine ⟨written_blocks (repeatable list hasList).arranged, fun block member => ?_, ?_⟩
    · exact ⟨plain_of_mem_blocks block member,
        (lasting list hasList block member).copiesAfter_add_length⟩
    · apply (repeatable list hasList).unroll_eq
      rcases hasList with ⟨definition, member, within⟩ | ⟨movement, member, within⟩
      · exact within.silent (macrosSilent definition member)
      · exact within.silent (movementsSilent movement member)

/-! ### Two chains -/

namespace Chained

def note (name : Syllable) (text : String) (column : Nat) : Expression :=
  .note ⟨name, 0, none, none, ⟨text, .note name, ⟨1, column⟩⟩⟩

def sign (count column : Nat) : Expression :=
  .repetition count ⟨"*", .asterisk, ⟨1, column⟩⟩

/-- What the source `piano: …` is read to, with the list of its only movement. -/
def score (list : List Expression) : Score :=
  ⟨[], [], [⟨"global", [⟨"piano", none, list, ⟨"piano", .word, ⟨1, 1⟩⟩⟩]⟩],
    ⟨[("piano", .movementAt 1 1)]⟩, []⟩

/-- The list `do*2*3 re*0 mi`, where each sign has a copy to repeat. -/
def lasting : List Expression :=
  [note .ut "do" 8, sign 2 10, sign 3 12, note .re "re" 15, sign 0 17, note .mi "mi" 20]

/-- The list `do*0*2`, where the second sign has none. -/
def exhausted : List Expression := [note .ut "do" 8, sign 0 10, sign 2 12]

/-- Such a list, if it has no groups, is the only one of the score. -/
theorem eq_of_hasList {list other : List Expression}
    (plain : ∀ element ∈ list, ∀ items token, ¬Part (.group items token) element)
    (hasList : (score list).HasList other) : other = list := by
  rcases hasList with ⟨definition, member, _⟩ | ⟨movement, member, within⟩
  · contradiction
  · obtain rfl := List.mem_singleton.mp member
    cases within with
    | itself => rfl
    | items token inList part => exact absurd part (plain _ inList _ token)

end Chained

theorem unroll_chain_by_chain_lasting :
    Compiler.read Settings.standard "piano: do*2*3 re*0 mi" =
        .ok (Chained.score Chained.lasting) ∧
      (∃ enough, ∀ limit, enough ≤ limit →
        ((Chained.score Chained.lasting).unroll limit).2 = []) ∧
      Expression.unroll 6 Chained.lasting =
        (List.replicate 4 (Chained.note .ut "do" 8) ++ [Chained.note .mi "mi" 20], []) := by
  have wasRead : Compiler.read Settings.standard "piano: do*2*3 re*0 mi" =
      .ok (Chained.score Chained.lasting) := by
    decide +kernel
  have ungrouped : ∀ element ∈ Chained.lasting, ∀ items token,
      ¬Part (.group items token) element := by
    intro element member items token part
    simp only [Chained.lasting, List.mem_cons, List.not_mem_nil, or_false] at member
    rcases member with rfl | rfl | rfl | rfl | rfl | rfl <;> cases part
  have hasList : (Chained.score Chained.lasting).HasList Chained.lasting :=
    .inr ⟨_, List.mem_singleton_self _, .itself⟩
  obtain ⟨silent, known⟩ := unroll_chain_by_chain wasRead fun list within => by
    rw [Chained.eq_of_hasList ungrouped within]
    decide
  exact ⟨wasRead, silent, (known 6 rfl Chained.lasting hasList).2.2⟩

/-- Behind a count of zero the next repetition has nothing to repeat, in a source that is read
without problems and under every limit. -/
theorem not_exists_silent_limit_of_clean :
    ¬∀ settings source score, Compiler.read settings source = .ok score →
      score.diagnostics = [] →
        ∃ enough, ∀ limit, enough ≤ limit → (score.unroll limit).2 = [] := by
  intro always
  have wasRead : Compiler.read Settings.standard "piano: do*0*2" =
      .ok (Chained.score Chained.exhausted) := by
    decide +kernel
  obtain ⟨enough, silent⟩ := always _ _ _ wasRead rfl
  have body := (unroll_snd_eq_nil_iff.mp (silent enough (Nat.le_refl enough))).2 _
    (List.mem_singleton_self _)
  exact absurd body (List.cons_ne_nil _ _)

end Score

end Solfege
