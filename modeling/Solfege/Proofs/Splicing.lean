import Solfege.Proofs.Conservation.Basic
import Solfege.Proofs.FixedPoint.Lacking
import Solfege.Proofs.Shape.Parts

/-!
Contract: what the splicing of groups keeps of a list.

Owns:
- a node by itself, without the parts that stand in it, and the nodes of a list in reading
  order, groups left out;
- the parts of a spliced expression, each of which is a part of it that was spliced;
- the main result: splicing goes element by element, keeps every node but the groups in its
  place, leaves groups as arguments only, and has nothing left to do.

Does not own: that splicing makes no difference to the inlining of macros.

A list and an argument treat a group in opposite ways, and what is held is treated like an
argument. So a group that is held would stay, and it takes what is read, where no group is held,
for all groups to be arguments.
-/

namespace Solfege

namespace Expression

/-! ### Nodes by themselves -/

/-- What a node is by itself: its sort, its own fields and its token. Of its parts a call keeps
their number. -/
inductive Node where
  | note (written : Note)
  | chord (members : List ChordMember) (token : Token)
  | reference (name : String) (token : Token)
  | call (name : String) (given : Nat) (token : Token)
  | repetition (count : Nat) (token : Token)
  | hold (token : Token)
  | release (token : Token)
  | directive (directive : Directive) (token : Token)
  | bar (token : Token)
  | placeholder (token : Token)
deriving DecidableEq, Repr

/-- The expression by itself, unless it is a group. -/
def node? : Expression → Option Node
  | .note written => some (.note written)
  | .chord members token => some (.chord members token)
  | .reference name token => some (.reference name token)
  | .call name arguments token => some (.call name arguments.length token)
  | .repetition count token => some (.repetition count token)
  | .hold _ token => some (.hold token)
  | .release token => some (.release token)
  | .group _ _ => none
  | .directive setting token => some (.directive setting token)
  | .bar token => some (.bar token)
  | .placeholder token => some (.placeholder token)

/-- The nodes of a list at any depth, in reading order, but for its groups. -/
def ungrouped (list : List Expression) : List Node :=
  (nodesOfAll list).filterMap node?

theorem ungrouped_flatMap {α : Type} (things : List α) (lists : α → List Expression) :
    ungrouped (things.flatMap lists) = things.flatMap fun thing => ungrouped (lists thing) := by
  unfold ungrouped
  simp only [nodesOfAll_eq, List.flatMap_assoc, List.filterMap_flatMap]

theorem ungrouped_eq_flatMap (list : List Expression) :
    ungrouped list = list.flatMap fun item => ungrouped [item] := by
  rw [← ungrouped_flatMap, List.flatMap_singleton']

/-- A group counts only for its items. -/
theorem ungrouped_group (items : List Expression) (token : Token) :
    ungrouped [.group items token] = ungrouped items := by
  unfold ungrouped
  rw [nodesOfAll, nodes, nodesOfAll, List.append_nil]
  rfl

theorem ungrouped_call (name : String) (arguments : List Expression) (token : Token) :
    ungrouped [.call name arguments token] =
      .call name arguments.length token :: ungrouped arguments := by
  unfold ungrouped
  rw [nodesOfAll, nodes, nodesOfAll, List.append_nil]
  rfl

theorem ungrouped_hold (inner : Expression) (token : Token) :
    ungrouped [.hold inner token] = .hold token :: ungrouped [inner] := by
  unfold ungrouped
  rw [nodesOfAll, nodes, nodesOfAll, nodesOfAll, nodesOfAll, List.append_nil, List.append_nil]
  rfl

/-! ### Splicing element by element -/

/-- What an element becomes in a spliced list: the items of a group, spliced in turn, or else
itself, with the groups spliced that stand in it. -/
def inPlace : Expression → List Expression
  | .group items _ => flatten items
  | element => [settle element]

theorem opened_settle (element : Expression) : opened (settle element) = inPlace element := by
  cases element <;> rfl

theorem flatten_eq_flatMap (list : List Expression) : flatten list = list.flatMap inPlace := by
  induction list with
  | nil => rfl
  | cons item rest inductionHypothesis =>
      rw [flatten_cons, inductionHypothesis, List.flatMap_cons, opened_settle]

theorem ungrouped_opened (expression : Expression) :
    ungrouped (opened expression) = ungrouped [expression] := by
  cases expression with
  | group items token => rw [ungrouped_group, opened]
  | _ => rfl

/-- Lists count the same if their elements do. -/
theorem ungrouped_flatten_of_each {list : List Expression}
    (each : ∀ item ∈ list, ungrouped [settle item] = ungrouped [item]) :
    ungrouped (flatten list) = ungrouped list := by
  rw [flatten_eq_flatMap, ungrouped_flatMap, ungrouped_eq_flatMap list]
  apply List.flatMap_congr
  intro item member
  rw [← opened_settle, ungrouped_opened, each item member]

theorem ungrouped_settle (expression : Expression) :
    ungrouped [settle expression] = ungrouped [expression] := by
  induction expression using partsInduction with
  | group items token others =>
      rw [settle_group, ungrouped_group, ungrouped_group, ungrouped_flatten_of_each others]
  | call name arguments token others =>
      rw [settle, settleAll_eq, ungrouped_call, ungrouped_call, List.length_map,
        ungrouped_eq_flatMap (arguments.map settle), ungrouped_eq_flatMap arguments,
        List.flatMap_map]
      congr 1
      exact List.flatMap_congr others
  | hold inner token here => rw [settle, ungrouped_hold, ungrouped_hold, here]
  | _ => rfl

theorem ungrouped_flatten (list : List Expression) : ungrouped (flatten list) = ungrouped list :=
  ungrouped_flatten_of_each fun item _ => ungrouped_settle item

/-! ### Parts of what was spliced -/

/-- Parts of what an element is opened to are parts of it. -/
theorem Part.of_mem_opened {part item expression : Expression}
    (member : item ∈ opened expression) (isPart : Part part item) : Part part expression := by
  cases expression with
  | group items place => exact .item place member isPart
  | _ =>
      obtain rfl := List.mem_singleton.mp member
      exact isPart

/-- Each part of a spliced expression is a part of it that was spliced. -/
theorem Part.exists_of_settle {part : Expression} (expression : Expression)
    (isPart : Part part (settle expression)) :
    ∃ original, Part original expression ∧ part = settle original := by
  induction expression using partsInduction with
  | group items token others =>
      rw [settle_group, flatten_eq_flatMap] at isPart
      cases isPart with
      | itself => exact ⟨_, .itself _, by rw [settle_group, flatten_eq_flatMap]⟩
      | item _ member inside =>
          obtain ⟨item, inList, spliced⟩ := List.mem_flatMap.mp member
          rw [← opened_settle] at spliced
          obtain ⟨original, isPart, same⟩ := others item inList (inside.of_mem_opened spliced)
          exact ⟨original, .item token inList isPart, same⟩
  | call name arguments token others =>
      rw [settle, settleAll_eq] at isPart
      cases isPart with
      | itself => exact ⟨_, .itself _, by rw [settle, settleAll_eq]⟩
      | argument _ _ member inside =>
          obtain ⟨argument, inList, rfl⟩ := List.mem_map.mp member
          obtain ⟨original, isPart, same⟩ := others argument inList inside
          exact ⟨original, .argument name token inList isPart, same⟩
  | hold inner token here =>
      cases isPart with
      | itself => exact ⟨_, .itself _, rfl⟩
      | held _ inside =>
          obtain ⟨original, isPart, same⟩ := here inside
          exact ⟨original, .held token isPart, same⟩
  | _ =>
      cases isPart
      exact ⟨_, .itself _, rfl⟩

theorem Part.exists_of_mem_flatten {part item : Expression} {list : List Expression}
    (member : item ∈ flatten list) (isPart : Part part item) :
    ∃ element ∈ list, ∃ original, Part original element ∧ part = settle original := by
  rw [flatten_eq_flatMap] at member
  obtain ⟨element, inList, spliced⟩ := List.mem_flatMap.mp member
  rw [← opened_settle] at spliced
  exact ⟨element, inList, exists_of_settle element (isPart.of_mem_opened spliced)⟩

/-- What a part lacks is lacking in the whole. -/
theorem Part.lacks {sort : Expression → Bool} {part whole : Expression}
    (isPart : Part part whole) (lacking : Lacks sort whole) : Lacks sort part := by
  induction isPart with
  | itself => exact lacking
  | item token member inside inductionHypothesis =>
      exact inductionHypothesis (lacks_group_iff.mp lacking _ member).inside
  | argument name token member inside inductionHypothesis =>
      exact inductionHypothesis (allLack_iff.mp lacking _ member)
  | held token inside inductionHypothesis => exact inductionHypothesis lacking

/-! ### Where groups stand -/

/-- The expressions that stand directly in an expression. -/
def children : Expression → List Expression
  | .call _ arguments _ => arguments
  | .group items _ => items
  | .hold inner _ => [inner]
  | _ => []

/-- No group is held in the list, at any depth. -/
def HoldsNoGroup (list : List Expression) : Prop :=
  ∀ item ∈ list, ∀ inner token, Part (.hold inner token) item → inner.isGroup = false

/-- No element of the list is a group, and whatever a group stands in directly, at any depth, is
a call. -/
def GroupsAreArguments (list : List Expression) : Prop :=
  (∀ item ∈ list, item.isGroup = false) ∧
    ∀ item ∈ list, ∀ whole, Part whole item → ∀ child ∈ whole.children, child.isGroup = true →
      ∃ name arguments token, whole = .call name arguments token

theorem HoldsNoGroup.flatten {list : List Expression} (ungroupedHolds : HoldsNoGroup list) :
    HoldsNoGroup (Expression.flatten list) := by
  intro item member inner token isPart
  obtain ⟨element, inList, original, wasPart, same⟩ := Part.exists_of_mem_flatten member isPart
  cases original with
  | hold held place =>
      rw [settle] at same
      obtain ⟨rfl, _⟩ := Expression.hold.inj same
      rw [isGroup_settle]
      exact ungroupedHolds element inList held place wasPart
  | _ => contradiction

theorem groupsAreArguments_flatten {list : List Expression} (ungroupedHolds : HoldsNoGroup list) :
    GroupsAreArguments (flatten list) := by
  have without := without_flatten_groups list
  refine ⟨fun item member => (without item member).other, ?_⟩
  intro item member whole isPart child isChild isGroup
  cases whole with
  | call name arguments token => exact ⟨name, arguments, token, rfl⟩
  | group items token =>
      have lacking := isPart.lacks (without item member).inside
      have other := (lacks_group_iff.mp lacking child isChild).other
      rw [other] at isGroup
      contradiction
  | hold inner token =>
      obtain rfl := List.mem_singleton.mp isChild
      have other := ungroupedHolds.flatten item member child token isPart
      rw [other] at isGroup
      contradiction
  | _ => contradiction

theorem flatten_flatten (list : List Expression) : flatten (flatten list) = flatten list :=
  flatten_of_without (without_flatten_groups list)

/-- No group is held in a list as it is read. -/
theorem FormedList.holdsNoGroup {list : List Expression} (formed : FormedList list) :
    HoldsNoGroup list := by
  intro item member inner token isPart
  cases isPart.formed (formed.2 item member) with
  | hold _ holdable _ => cases holdable <;> rfl

end Expression

/-! ### Main result -/

open Expression

/-- **Splicing keeps every leaf in its place.** Lists are spliced one behind the other, and in a
list the spliced items of a group take its place. The nodes at any depth, groups left out, stay
the same in reading order, with their fields and tokens and, of a call, the number of arguments.
What was spliced is spliced to itself. And where no group is held, as in all that is read, no
group is left but as an argument of a call, and its items are none. -/
theorem flatten_keeps_leaves :
    (∀ front behind, flatten (front ++ behind) = flatten front ++ flatten behind) ∧
      (∀ list, flatten list = list.flatMap inPlace ∧
        ungrouped (flatten list) = ungrouped list ∧
        flatten (flatten list) = flatten list ∧
        (HoldsNoGroup list → GroupsAreArguments (flatten list))) ∧
      ∀ tokens trackName score, Score.ofTokens tokens trackName = .ok score →
        (∀ definition ∈ score.macros, HoldsNoGroup definition.body) ∧
          ∀ movement ∈ score.movements, HoldsNoGroup movement.expressions := by
  refine ⟨flatten_append, fun list => ?_, fun tokens trackName score wasRead => ?_⟩
  · exact ⟨flatten_eq_flatMap list, ungrouped_flatten list, flatten_flatten list,
      groupsAreArguments_flatten⟩
  · obtain ⟨bodies, movements⟩ := Score.formed_of_ofTokens wasRead
    exact ⟨fun definition member => (bodies definition member).holdsNoGroup,
      fun movement member => (movements movement member).holdsNoGroup⟩

/-- A call that is held and a call in a group, each with groups within groups as arguments. -/
theorem flatten_keeps_leaves_nested :
    ∃ tokens score movement, Score.ofTokens tokens "global" = .ok score ∧
      movement ∈ score.movements ∧
      (ungrouped movement.expressions).length = 9 ∧
      (ungrouped (flatten movement.expressions)).length = 9 ∧
      (flatten movement.expressions).length = 5 ∧
      GroupsAreArguments (flatten movement.expressions) := by
  let tokens := (Token.tokenize "piano: do [m([re [mi]])] [(n([[fa]])) sol]").toOption.getD []
  cases result : Score.ofTokens tokens "global" with
  | error halt =>
      have isOk : (Score.ofTokens tokens "global").isOk = true := by decide +kernel
      rw [result] at isOk
      contradiction
  | ok score =>
      have counted : ((Score.ofTokens tokens "global").toOption.map fun score =>
          score.movements.map fun movement =>
            ((ungrouped movement.expressions).length, (flatten movement.expressions).length)) =
          some [(9, 5)] := by
        decide +kernel
      rw [result] at counted
      obtain ⟨movement, member, same⟩ := List.mem_map.mp
        (Option.some.inj counted ▸ List.mem_singleton_self (9, 5))
      obtain ⟨nodes, elements⟩ := Prod.mk.inj same
      obtain ⟨_, each, read⟩ := flatten_keeps_leaves
      obtain ⟨_, kept, _, groups⟩ := each movement.expressions
      have holds := (read tokens "global" score result).2 movement member
      exact ⟨tokens, score, movement, result, member, nodes, kept ▸ nodes, elements, groups holds⟩

end Solfege
