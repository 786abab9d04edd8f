import Solfege.Proofs.Spelling.List

/-!
Contract: spelled expressions are read back.

Owns:
- the proof that what was spelled of a call, a hold, a group or a postfix sign is read, and
  nothing behind it;
- the proof for every expression that can be written, and for bodies.

Does not own: statements.
-/

namespace Solfege.Reading

variable {reading : Reading} {tokens behind : List Token}

/-! ### Groups and holds -/

theorem takes_groupFrom {bound : Nat} {items : List Expression}
    (writable : ∀ item ∈ items, item.Writable) (each : ∀ item ∈ items, ReadsBack item)
    (opened : ∀ first ∈ items.head?, first.isPostfix = false) (opening : Token)
    (spells : Spells (Expression.itemsSpelled items ++ [.sign ']']) tokens behind)
    (enough : tokens.length < bound) :
    Takes (groupFrom (expression bound)) reading (opening :: tokens) behind fun read =>
      ∃ found, read = .group found opening ∧
        found.map Expression.erased = items.map Expression.erased := by
  obtain ⟨middle, spelled, closing⟩ := spells.append
  obtain ⟨_, left, rfl, nothing⟩ := closing.cons
  obtain rfl := nothing.eq_of_nil
  have read : Takes (groupItems (expression bound) opening) (reading.inside .group) tokens left
      fun read => read.map Expression.erased = items.map Expression.erased := by
    refine (takes_items Layout.blank_group writable each opened spelled enough rfl rfl).bind ?_
    exact fun found same => check_takes rfl (advance_takes (takes_pure same))
  exact advance_takes ((takes_within read).bind fun found same => takes_pure ⟨found, rfl, same⟩)

theorem canBeHeld_of_erased {read held : Expression} (same : read.erased = held.erased)
    (holdable : Expression.Holdable held) : canBeHeld read = true := by
  have kept : ∀ item : Expression, canBeHeld item.erased = canBeHeld item := by
    intro item
    cases item <;> rfl
  rw [← kept, same, kept]
  cases holdable <;> rfl

theorem takes_holdFrom {bound : Nat} {inner : Expression} (writable : inner.Writable)
    (holdable : Expression.Holdable inner) (readsBack : ReadsBack inner) (opening : Token)
    (spells : Spells inner.spelled tokens behind) (enough : tokens.length < bound)
    (closes : (reading.front behind).closesElement = true) :
    Takes (holdFrom (expression bound)) reading (opening :: tokens) behind fun read =>
      ∃ found, read = .hold found opening ∧ found.erased = inner.erased := by
  have noPostfix : inner.isPostfix = false := by cases holdable <;> rfl
  have opens : ((reading.inside .hold).front tokens).opensElement = true :=
    (front_of_writable writable spells).1
  have read : Takes (do skipSpace; expression bound) (reading.inside .hold) tokens behind
      fun read => read.erased = inner.erased := by
    refine skipping_takes (stands_of_opens opens).1 (readsBack spells enough closes ?_)
    intro isPostfix
    rw [noPostfix] at isPostfix
    contradiction
  refine advance_takes ((takes_within read).bind fun found same => ?_)
  rw [if_pos (canBeHeld_of_erased same holdable)]
  exact takes_pure ⟨found, rfl, same⟩

/-! ### All expressions -/

theorem readsBack_of_members {item : Expression} {members : List ChordMember}
    (nonempty : members ≠ []) (writable : ∀ member ∈ members, member.Writable)
    (undelayed : ∀ member ∈ members.dropLast, member.duration? = none)
    (spelled : item.spelled = ChordMember.allSpelled members)
    (joined : (ofMembers default members).erased = item.erased) : ReadsBack item := by
  intro bound reading tokens behind spells enough closes _
  rw [spelled] at spells
  refine (takes_members nonempty writable undelayed spells enough closes).mono ?_
  intro read joins
  rw [joins.erased_eq default, joined]

/-- An expression is read back if it is whatever the bound on the nesting inside of it. -/
theorem readsBack_of_expressionFrom {item : Expression}
    (takes : ∀ {bound : Nat} {reading : Reading} {tokens behind : List Token},
      Spells item.spelled tokens behind → tokens.length ≤ bound →
      (reading.front behind).closesElement = true →
      (item.isPostfix = true → reading.contexts.head? = some .expression) →
      Takes (expressionFrom (expression bound)) reading tokens behind
        fun read => read.erased = item.erased) : ReadsBack item := by
  intro bound reading tokens behind spells enough closes allowed
  obtain ⟨within, rfl⟩ : ∃ within, bound = within + 1 :=
    Nat.exists_eq_succ_of_ne_zero (by omega)
  exact takes spells (by omega) closes allowed

theorem readsBack_call {name : String} {arguments : List Expression} (token : Token)
    (isName : IsName name) (each : ∀ argument ∈ arguments, PassesOn argument) :
    ReadsBack (.call name arguments token) := by
  refine readsBack_of_expressionFrom fun spells enough _ _ => ?_
  obtain ⟨_, left, rfl, rest⟩ := spells.name isName
  obtain ⟨_, inside, rfl, more⟩ := rest.cons
  rw [List.length_cons, List.length_cons] at enough
  refine peek_takes (advance_takes (peek_takes ?_))
  refine (takes_callFrom _ each more (by omega)).mono ?_
  rintro _ ⟨found, rfl, same⟩
  rw [Expression.erased, Expression.erased, Expression.erasedAll_eq_map,
    Expression.erasedAll_eq_map, same]

theorem readsBack_repetition {count : Nat} (token : Token) (small : IsSmall count) :
    ReadsBack (.repetition count token) := by
  refine readsBack_of_expressionFrom fun spells _ _ allowed => ?_
  obtain ⟨_, number, rfl, here, value⟩ := spells.signed small
  refine peek_takes (advance_takes (followsExpression_takes (allowed rfl) ?_))
  refine (takes_expectNumber _ here value).bind ?_
  rintro _ rfl
  exact takes_pure rfl

theorem readsBack_release (token : Token) : ReadsBack (.release token) := by
  refine readsBack_of_expressionFrom fun spells _ _ allowed => ?_
  obtain ⟨_, left, rfl, nothing⟩ := spells.cons
  obtain rfl := nothing.eq_of_nil
  exact peek_takes (advance_takes (followsExpression_takes (allowed rfl) (takes_pure rfl)))

theorem readsBack_bar (token : Token) : ReadsBack (.bar token) := by
  refine readsBack_of_expressionFrom fun spells _ _ _ => ?_
  obtain ⟨_, left, rfl, nothing⟩ := spells.cons
  obtain rfl := nothing.eq_of_nil
  exact peek_takes (advance_takes (takes_pure rfl))

theorem readsBack_hold {inner : Expression} (token : Token) (writable : inner.Writable)
    (holdable : Expression.Holdable inner) (readsBack : ReadsBack inner) :
    ReadsBack (.hold inner token) := by
  refine readsBack_of_expressionFrom fun spells enough closes _ => ?_
  obtain ⟨_, left, rfl, rest⟩ := spells.cons
  refine peek_takes ((takes_holdFrom writable holdable readsBack _ rest enough closes).mono ?_)
  rintro _ ⟨found, rfl, same⟩
  rw [Expression.erased, Expression.erased, same]

theorem readsBack_group {items : List Expression} (token : Token)
    (writable : ∀ item ∈ items, item.Writable) (each : ∀ item ∈ items, ReadsBack item)
    (opened : ∀ first ∈ items.head?, first.isPostfix = false) :
    ReadsBack (.group items token) := by
  refine readsBack_of_expressionFrom fun spells enough _ _ => ?_
  obtain ⟨_, left, rfl, rest⟩ := spells.cons
  refine peek_takes ((takes_groupFrom writable each opened _ rest enough).mono ?_)
  rintro _ ⟨found, rfl, same⟩
  rw [Expression.erased, Expression.erased, Expression.erasedAll_eq_map,
    Expression.erasedAll_eq_map, same]

/-- Every expression that can be written is read back. -/
theorem readsBack_of_writable {item : Expression} (writable : item.Writable) :
    ReadsBack item := by
  induction writable with
  | @note written writable =>
      exact readsBack_of_members (List.cons_ne_nil _ _)
        (List.forall_mem_singleton.mpr (show ChordMember.Writable (.note written) from writable))
        (List.forall_mem_nil _) rfl rfl
  | @chord members token several writable undelayed =>
      obtain ⟨first, rest, rfl⟩ := List.exists_cons_of_length_pos (Nat.lt_of_succ_le
        (Nat.le_of_succ_le several))
      obtain ⟨second, others, rfl⟩ := List.exists_cons_of_length_pos
        (Nat.lt_of_succ_le (Nat.le_of_succ_le_succ several))
      refine readsBack_of_members (List.cons_ne_nil _ _) writable undelayed rfl ?_
      rw [ofMembers_cons_cons]
      rfl
  | @reference name token isName =>
      exact readsBack_of_members (List.cons_ne_nil _ _)
        (List.forall_mem_singleton.mpr
          (show ChordMember.Writable (.reference name token) from isName))
        (List.forall_mem_nil _) rfl rfl
  | call token isName writable plain each =>
      exact readsBack_call token isName fun argument member =>
        ⟨writable argument member, plain argument member, each argument member⟩
  | repetition token small => exact readsBack_repetition token small
  | hold token holdable writable readsBack =>
      exact readsBack_hold token writable holdable readsBack
  | release token => exact readsBack_release token
  | group token writable opened each => exact readsBack_group token writable each opened
  | directive token writable =>
      refine readsBack_of_expressionFrom fun spells _ closes _ => ?_
      refine (takes_directive writable _ spells closes).mono ?_
      rintro _ ⟨place, rfl⟩
      rfl
  | bar token => exact readsBack_bar token

/-- A body is read up to the end of its line. -/
theorem takes_body {items : List Expression} (writable : Expression.WritableList items)
    (spells : Spells (Expression.furtherItemsSpelled items) tokens behind)
    (atEnd : reading.front behind = .newline) :
    Takes body reading tokens behind
      fun read => read.map Expression.erased = items.map Expression.erased := by
  have closes : (reading.front behind).closesElement = true := by
    rw [atEnd]
    rfl
  have ends : Layout.body.ends (reading.front behind) = true := by
    rw [atEnd]
    rfl
  have unfolded : body (reading.facing tokens) =
      elements .body (expression (tokens.length + 1)) (reading.facing tokens) := rfl
  obtain ⟨read, result, same⟩ := takes_furtherItems Layout.blank_body writable.1
    (fun item member => readsBack_of_writable (writable.1 item member)) writable.2 spells
    (Nat.le_succ tokens.length) closes ends
  exact ⟨read, unfolded.trans result, same⟩

end Solfege.Reading
