import Solfege.Proofs.Reading.List
import Solfege.Proofs.Spelling.Note

/-!
Contract: spelled lists of expressions are read back, if their elements are.

Owns:
- what the first token of an expression cannot be;
- expressions that are read back, and those of them that can be arguments;
- the same for argument lists and calls, and for the lists of bodies and groups.

Does not own: which expressions are read back.
-/

namespace Solfege.Reading

variable {reading : Reading} {tokens behind : List Token}

/-! ### What an expression begins with -/

theorem exists_cons_of_members {members : List ChordMember} (nonempty : members ≠ [])
    (writable : ∀ member ∈ members, member.Writable)
    (spells : Spells (ChordMember.allSpelled members) tokens behind) :
    ∃ first left, tokens = first :: left ∧ first.kind.opensElement = true ∧
      first.kind ≠ .rightParen := by
  obtain ⟨member, others, rfl⟩ := List.exists_cons_of_ne_nil nonempty
  obtain ⟨more, same⟩ := ChordMember.exists_allSpelled_cons member others
  rw [same] at spells
  cases member with
  | note written =>
      obtain ⟨_, left, rfl, _⟩ := spells.syllable
      exact ⟨_, left, rfl, rfl, Token.Kind.noConfusion⟩
  | reference name token =>
      obtain ⟨_, left, rfl, _⟩ := spells.name (writable _ List.mem_cons_self)
      exact ⟨_, left, rfl, rfl, Token.Kind.noConfusion⟩

/-- The first token of an expression ends no list and separates no elements of one, and is a
closing parenthesis for a release only. -/
theorem exists_cons_of_writable {item : Expression} (writable : item.Writable)
    (spells : Spells item.spelled tokens behind) :
    ∃ first left, tokens = first :: left ∧ first.kind.opensElement = true ∧
      (item.isPostfix = false → first.kind ≠ .rightParen) := by
  cases writable with
  | note writable =>
      obtain ⟨_, left, rfl, _⟩ := spells.syllable
      exact ⟨_, left, rfl, rfl, fun _ => Token.Kind.noConfusion⟩
  | @chord members token several writable =>
      have nonempty : members ≠ [] := by
        intro none
        subst none
        contradiction
      obtain ⟨first, left, rfl, opens, noRelease⟩ :=
        exists_cons_of_members nonempty writable spells
      exact ⟨first, left, rfl, opens, fun _ => noRelease⟩
  | reference token isName =>
      obtain ⟨_, left, rfl, _⟩ := spells.name isName
      exact ⟨_, left, rfl, rfl, fun _ => Token.Kind.noConfusion⟩
  | call token isName =>
      obtain ⟨_, left, rfl, _⟩ := spells.name isName
      exact ⟨_, left, rfl, rfl, fun _ => Token.Kind.noConfusion⟩
  | @directive setting token writable =>
      cases setting with
      | octave direction _ | tone direction _ =>
          -- The sign depends on the direction.
          cases direction
          all_goals
            obtain ⟨_, left, rfl, _⟩ := spells.cons
            exact ⟨_, left, rfl, rfl, fun _ => Token.Kind.noConfusion⟩
      | _ =>
          obtain ⟨_, left, rfl, _⟩ := spells.cons
          exact ⟨_, left, rfl, rfl, fun _ => Token.Kind.noConfusion⟩
  | release token =>
      obtain ⟨_, left, rfl, _⟩ := spells.cons
      exact ⟨_, left, rfl, rfl, fun plain => Bool.noConfusion plain⟩
  | _ =>
      obtain ⟨_, left, rfl, _⟩ := spells.cons
      exact ⟨_, left, rfl, rfl, fun _ => Token.Kind.noConfusion⟩

theorem front_of_writable {item : Expression} (writable : item.Writable)
    (spells : Spells item.spelled tokens behind) :
    (reading.front tokens).opensElement = true ∧
      (item.isPostfix = false → reading.front tokens ≠ .rightParen) := by
  obtain ⟨first, left, rfl, opens, noRelease⟩ := exists_cons_of_writable writable spells
  exact ⟨opens, noRelease⟩

/-! ### Arguments -/

/-- What is spelled of the expression is read back, within every bound on the tokens left. A
postfix sign is read where the list already holds an expression. -/
def ReadsBack (item : Expression) : Prop :=
  ∀ {bound : Nat} {reading : Reading} {tokens behind : List Token},
    Spells item.spelled tokens behind → tokens.length < bound →
    (reading.front behind).closesElement = true →
    (item.isPostfix = true → reading.contexts.head? = some .expression) →
    Takes (expression bound) reading tokens behind fun read => read.erased = item.erased

/-- An expression that can be an argument, and that is read back. -/
structure PassesOn (argument : Expression) : Prop where
  writable : argument.Writable
  plain : argument.isPostfix = false
  readsBack : ReadsBack argument

theorem PassesOn.takes {argument : Expression} (passes : PassesOn argument) {bound : Nat}
    (spells : Spells argument.spelled tokens behind) (enough : tokens.length < bound)
    (closes : (reading.front behind).closesElement = true) :
    Takes (expression bound) reading tokens behind fun read => read.erased = argument.erased :=
  passes.readsBack spells enough closes fun isPostfix => by
    rw [passes.plain] at isPostfix
    contradiction

theorem stands_of_opens {kind : Token.Kind} (opens : kind.opensElement = true) :
    isSpace kind = false ∧ isWhitespace kind = false ∧ kind ≠ .endOfFile := by
  cases kind with
  | space => contradiction
  | newline => contradiction
  | endOfFile => contradiction
  | _ => exact ⟨rfl, rfl, Token.Kind.noConfusion⟩

theorem takes_argumentsFrom {bound : Nat} (steps : Nat) (found : List Expression)
    {argument : Expression} {others : List Expression} {closing : String} {place : Position}
    (here : PassesOn argument) (each : ∀ other ∈ others, PassesOn other)
    (spells : Spells (argument.spelled ++ Expression.furtherArgumentsSpelled others) tokens
      (⟨closing, .rightParen, place⟩ :: behind))
    (enough : tokens.length < bound) (fits : tokens.length < steps) :
    Takes (argumentsFrom (expression bound) steps found) reading tokens behind
      fun read => ∃ more, read = found.reverse ++ more ∧
        more.map Expression.erased = (argument :: others).map Expression.erased := by
  induction others generalizing argument found tokens steps with
  | nil =>
      obtain ⟨steps, rfl⟩ : ∃ fewer, steps = fewer + 1 :=
        Nat.exists_eq_succ_of_ne_zero (by omega)
      rw [Expression.furtherArgumentsSpelled, List.append_nil] at spells
      obtain ⟨opens, _⟩ := front_of_writable here.writable spells
      obtain ⟨_, noBlank, noEnd⟩ := stands_of_opens opens
      refine skipping_takes noBlank (check_not_takes noEnd ?_)
      refine (here.takes spells enough rfl).bind fun read same => ?_
      refine skipping_takes rfl (peek_takes (advance_takes (takes_pure ?_)))
      exact ⟨[read], List.reverse_cons, by rw [List.map_singleton, List.map_singleton, same]⟩
  | cons next others inductionHypothesis =>
      obtain ⟨steps, rfl⟩ : ∃ fewer, steps = fewer + 1 :=
        Nat.exists_eq_succ_of_ne_zero (by omega)
      obtain ⟨nextHere, othersHere⟩ := List.forall_mem_cons.mp each
      obtain ⟨middle, spelled, further⟩ := spells.append
      have shorter := spelled.length_le
      obtain ⟨opens, _⟩ := front_of_writable here.writable spelled
      obtain ⟨_, noBlank, noEnd⟩ := stands_of_opens opens
      obtain ⟨_, afterComma, rfl, more⟩ := further.cons
      obtain ⟨_, left, rfl, rest⟩ := more.cons
      rw [List.length_cons, List.length_cons] at shorter
      refine skipping_takes noBlank (check_not_takes noEnd ?_)
      refine (here.takes spelled enough rfl).bind fun read same => ?_
      -- Behind the comma and its blank the next argument begins.
      obtain ⟨nextSpelled, nextFirst, _⟩ := rest.append
      obtain ⟨nextOpens, noClosing⟩ := front_of_writable nextHere.writable nextFirst
      obtain ⟨_, noNextBlank, _⟩ := stands_of_opens nextOpens
      refine skipping_takes rfl (peek_takes (advance_takes ?_))
      refine skipping_cons_takes rfl (skipping_takes noNextBlank ?_)
      refine check_not_takes (noClosing nextHere.plain) ?_
      have onward := inductionHypothesis steps (read :: found) nextHere othersHere rest
        (by omega) (by omega)
      refine onward.mono ?_
      rintro _ ⟨more, rfl, sameMore⟩
      refine ⟨read :: more, ?_, ?_⟩
      · rw [List.reverse_cons, List.append_assoc, List.singleton_append]
      · rw [List.map_cons, same, sameMore]
        rfl

theorem takes_argumentList {bound : Nat} {arguments : List Expression} {closing : String}
    {place : Position} (each : ∀ argument ∈ arguments, PassesOn argument)
    (spells : Spells (Expression.argumentsSpelled arguments) tokens
      (⟨closing, .rightParen, place⟩ :: behind))
    (enough : tokens.length < bound) :
    Takes (argumentList (expression bound)) reading tokens behind
      fun read => read.map Expression.erased = arguments.map Expression.erased := by
  cases arguments with
  | nil =>
      obtain rfl := spells.eq_of_nil
      exact skipping_takes rfl (check_takes rfl (advance_takes (takes_pure rfl)))
  | cons argument others =>
      obtain ⟨here, othersHere⟩ := List.forall_mem_cons.mp each
      obtain ⟨middle, spelled, _⟩ := spells.append
      obtain ⟨opens, noClosing⟩ := front_of_writable here.writable spelled
      obtain ⟨_, noBlank, _⟩ := stands_of_opens opens
      refine skipping_takes noBlank (check_not_takes (noClosing here.plain) ?_)
      obtain ⟨found, result, more, isMore, same⟩ :=
        takes_argumentsFrom (tokens.length + 1) [] here othersHere spells enough
          (Nat.lt_succ_self _)
      exact ⟨found, result, isMore ▸ same⟩

theorem takes_callFrom {bound : Nat} {arguments : List Expression} {opening : Token}
    (name : Token) (each : ∀ argument ∈ arguments, PassesOn argument)
    (spells : Spells (Expression.argumentsSpelled arguments ++ [.sign ')']) tokens behind)
    (enough : tokens.length < bound) :
    Takes (callFrom (expression bound) name) reading (opening :: tokens) behind fun read =>
      ∃ found, read = .call name.text found name ∧
        found.map Expression.erased = arguments.map Expression.erased := by
  obtain ⟨middle, spelled, closing⟩ := spells.append
  obtain ⟨_, left, rfl, nothing⟩ := closing.cons
  obtain rfl := nothing.eq_of_nil
  have recovered : Takes (recoveredArguments (expression bound) name)
      (reading.inside .arguments) tokens left
        fun read => read.map Expression.erased = arguments.map Expression.erased := by
    refine (takes_attempt (takes_argumentList each spelled enough)).bind fun result made => ?_
    cases result with
    | error diagnostic => contradiction
    | ok found => exact takes_pure made
  refine advance_takes ((takes_within recovered).bind fun found same => takes_pure ?_)
  exact ⟨found, rfl, same⟩

/-! ### Lists -/

/-- A layout in which blanks separate the elements of a list. -/
structure Layout.Blank (layout : Layout) : Prop where
  lawful : layout.Lawful
  separates : layout.separates .space = true
  begins : ∀ kind, kind.opensElement = true →
    layout.separates kind = false ∧ layout.ends kind = false

theorem Layout.blank_body : Layout.body.Blank where
  lawful := Layout.lawful_body
  separates := rfl
  begins kind opens := by
    cases kind with
    | space | newline | semicolon | endOfFile => contradiction
    | _ => exact ⟨rfl, rfl⟩

theorem Layout.blank_group : Layout.group.Blank where
  lawful := Layout.lawful_group
  separates := rfl
  begins kind opens := by
    cases kind with
    | space | newline | rightBracket | endOfFile => contradiction
    | _ => exact ⟨rfl, rfl⟩

/-- The reader inside of a list, which may hold an expression already. -/
def marking (reading : Reading) (marked : Bool) : Reading :=
  { reading with contexts := marks marked ++ reading.contexts }

theorem closes_furtherItemsSpelled {items : List Expression}
    (spells : Spells (Expression.furtherItemsSpelled items) tokens behind)
    (closes : (reading.front behind).closesElement = true) :
    (reading.front tokens).closesElement = true := by
  cases items with
  | nil =>
      obtain rfl := spells.eq_of_nil
      exact closes
  | cons item others =>
      obtain ⟨_, left, rfl, _⟩ := spells.cons
      rfl

section Rounds

variable {layout : Layout} (blank : layout.Blank) {bound : Nat} (steps : Nat) (marked : Bool)
variable (found : List Expression)

include blank

theorem elementsFrom_at_end (ends : layout.ends (reading.front behind) = true) :
    elementsFrom layout (expression bound) (steps + 1) marked found
      ((reading.marking marked).facing behind) = .ok found.reverse (reading.facing behind) := by
  have nothing : ((reading.marking marked).facing behind).skip layout.separates =
      (reading.marking marked).facing behind :=
    skip_facing (blank.lawful.not_separates _ ends)
  have contexts : ((reading.marking marked).facing behind).contexts =
      marks marked ++ reading.contexts := rfl
  rw [elementsFrom_of_ends (nothing.symm ▸ ends) contexts, nothing]
  rfl

/-- One round reads one item, with the blank in front of it. -/
theorem exists_elementsFrom_eq {item : Expression} (writable : item.Writable)
    (readsBack : ReadsBack item) (opened : marked = false → item.isPostfix = false)
    (spells : Spells (.blank :: item.spelled) tokens behind) (enough : tokens.length ≤ bound)
    (closes : (reading.front behind).closesElement = true) :
    ∃ read, elementsFrom layout (expression bound) (steps + 1) marked found
        ((reading.marking marked).facing tokens) =
          elementsFrom layout (expression bound) steps true (read :: found)
            ((reading.marking true).facing behind) ∧
      read.erased = item.erased := by
  obtain ⟨position, left, rfl, spelled⟩ := spells.cons
  rw [List.length_cons] at enough
  have opens : ((reading.marking marked).front left).opensElement = true :=
    (front_of_writable writable spelled).1
  obtain ⟨stands, more⟩ := blank.begins _ opens
  have separates : layout.separates
      (Token.mk (String.ofList [' ']) .space position).kind = true := blank.separates
  have skipped := (skip_cons separates).trans (skip_facing stands)
  have allowed : item.isPostfix = true →
      (reading.marking marked).contexts.head? = some .expression := by
    intro isPostfix
    cases marked with
    | true => rfl
    | false =>
        -- Nothing stands in front of the item, so it is no postfix sign.
        rw [opened rfl] at isPostfix
        contradiction
  have element : Takes (expression bound) (reading.marking marked) left behind
      fun read => read.erased = item.erased :=
    readsBack spelled (by omega) closes allowed
  obtain ⟨read, result, same⟩ := element
  have marksHere : marks (!marked) ++ ((reading.marking marked).facing behind).contexts =
      marks true ++ reading.contexts := by
    cases marked <;> rfl
  refine ⟨read, ?_, same⟩
  rw [elementsFrom_of_ok (skipped.symm ▸ more) (skipped.symm ▸ result), marksHere]
  rfl

/-- Elements are read up to the token that ends their list. -/
theorem takes_elementsFrom {items : List Expression}
    (writable : ∀ item ∈ items, item.Writable) (each : ∀ item ∈ items, ReadsBack item)
    (opened : marked = false → ∀ first ∈ items.head?, first.isPostfix = false)
    (spells : Spells (Expression.furtherItemsSpelled items) tokens behind)
    (enough : tokens.length ≤ bound) (fits : items.length < steps)
    (closes : (reading.front behind).closesElement = true)
    (ends : layout.ends (reading.front behind) = true) :
    ∃ more, elementsFrom layout (expression bound) steps marked found
        ((reading.marking marked).facing tokens) =
          .ok (found.reverse ++ more) (reading.facing behind) ∧
      more.map Expression.erased = items.map Expression.erased := by
  obtain ⟨steps, rfl⟩ : ∃ fewer, steps = fewer + 1 := Nat.exists_eq_succ_of_ne_zero (by omega)
  induction items generalizing tokens steps marked found with
  | nil =>
      obtain rfl := spells.eq_of_nil
      refine ⟨[], ?_, rfl⟩
      rw [elementsFrom_at_end blank steps marked found ends, List.append_nil]
  | cons item others inductionHypothesis =>
      rw [List.length_cons] at fits
      obtain ⟨steps, rfl⟩ : ∃ fewer, steps = fewer + 1 := Nat.exists_eq_succ_of_ne_zero (by omega)
      obtain ⟨here, othersWritable⟩ := List.forall_mem_cons.mp writable
      obtain ⟨readsBack, othersReadBack⟩ := List.forall_mem_cons.mp each
      obtain ⟨middle, spelled, further⟩ := (show Spells ((.blank :: item.spelled) ++
        Expression.furtherItemsSpelled others) tokens behind from spells).append
      have shorter := spelled.length_le
      obtain ⟨read, result, same⟩ := exists_elementsFrom_eq blank (steps + 1) marked found here
        readsBack (fun unmarked => opened unmarked item rfl) spelled enough
        (closes_furtherItemsSpelled further closes)
      obtain ⟨final, whole, sameOthers⟩ := inductionHypothesis true (read :: found)
        othersWritable othersReadBack (fun unmarked => Bool.noConfusion unmarked) further
        (by omega) steps (by omega)
      refine ⟨read :: final, ?_, ?_⟩
      · rw [result, whole, List.reverse_cons, List.append_assoc, List.singleton_append]
      · rw [List.map_cons, same, sameOthers]
        rfl

end Rounds

theorem length_le_furtherItemsSpelled (items : List Expression) :
    items.length ≤ (Expression.furtherItemsSpelled items).length := by
  induction items with
  | nil => exact Nat.le_refl _
  | cons item others inductionHypothesis =>
      rw [Expression.furtherItemsSpelled, List.length_cons, List.length_cons, List.length_append]
      omega

/-- The elements of a body are read, each of them behind a blank. -/
theorem takes_furtherItems {layout : Layout} (blank : layout.Blank) {bound : Nat}
    {items : List Expression} (writable : ∀ item ∈ items, item.Writable)
    (each : ∀ item ∈ items, ReadsBack item)
    (opened : ∀ first ∈ items.head?, first.isPostfix = false)
    (spells : Spells (Expression.furtherItemsSpelled items) tokens behind)
    (enough : tokens.length ≤ bound) (closes : (reading.front behind).closesElement = true)
    (ends : layout.ends (reading.front behind) = true) :
    Takes (elements layout (expression bound)) reading tokens behind
      fun read => read.map Expression.erased = items.map Expression.erased := by
  have count := length_le_furtherItemsSpelled items
  have length := spells.length_eq
  exact takes_elementsFrom blank (tokens.length + 1) false [] writable each (fun _ => opened)
    spells enough (by omega) closes ends

/-- The items of a group are read, the first of them without a blank in front of it. -/
theorem takes_items {layout : Layout} (blank : layout.Blank) {bound : Nat}
    {items : List Expression} (writable : ∀ item ∈ items, item.Writable)
    (each : ∀ item ∈ items, ReadsBack item)
    (opened : ∀ first ∈ items.head?, first.isPostfix = false)
    (spells : Spells (Expression.itemsSpelled items) tokens behind)
    (enough : tokens.length < bound) (closes : (reading.front behind).closesElement = true)
    (ends : layout.ends (reading.front behind) = true) :
    Takes (elements layout (expression bound)) reading tokens behind
      fun read => read.map Expression.erased = items.map Expression.erased := by
  cases items with
  | nil => exact takes_furtherItems blank writable each opened spells (by omega) closes ends
  | cons item others =>
      have further : Spells (Expression.furtherItemsSpelled (item :: others))
          (⟨String.ofList [' '], .space, default⟩ :: tokens) behind :=
        spells.in_front .space [' '] default
      have separates : layout.separates
          (Token.mk (String.ofList [' ']) .space default).kind = true := blank.separates
      have some : item.spelled.length ≠ 0 := by
        intro none
        have nothing : Spells item.spelled [] [] :=
          ⟨[], rfl, (List.eq_nil_of_length_eq_zero none).symm⟩
        obtain ⟨first, left, impossible, _⟩ :=
          exists_cons_of_writable (writable item List.mem_cons_self) nothing
        contradiction
      have length := further.length_eq
      have count := length_le_furtherItemsSpelled others
      simp only [Expression.furtherItemsSpelled, List.length_cons, List.length_append] at length
      obtain ⟨read, result, same⟩ := takes_elementsFrom blank (tokens.length + 1) false []
        writable each (fun _ => opened) further enough
        (by rw [List.length_cons]; omega) closes ends
      refine ⟨read, ?_, same⟩
      change elementsFrom layout (expression bound) (tokens.length + 1) false []
        (reading.facing tokens) = _
      rw [elementsFrom] at result ⊢
      exact (skipping_congr (skip_cons separates)).symm.trans result

end Solfege.Reading
