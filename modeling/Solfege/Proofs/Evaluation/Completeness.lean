import Solfege.Proofs.Evaluation.Binding
import Solfege.Proofs.Evaluation.Demands
import Solfege.Proofs.Inlining.Course

/-!
Contract: whatever has a value is inlined to it, for a toll that a budget has to allow.

Owns:
- the states from which names can be inlined: every macro being inlined refers to them,
  and there are enough levels left for all macros that are not being inlined yet;
- the proof that the toll of an expression depends on the expression and the values of its
  parameters only, and that a budget which allows it is enough;
- the same for lists, arguments, members of chords and whole movements.

Does not own: that what is inlined without problems has a value.

No macro is met within itself, because references that lead to a value run in no circle.
-/

namespace Solfege

open Expression
open Inlining (adding unfoldTo place placeName placeAll placeArguments placeMember)

/-! ### States from which names can be inlined -/

/-- What has to hold of a state so that names can be inlined from there, to a number of
levels. -/
structure Ready (find : String → Option Macro) (around : Surroundings) (level : Nat)
    (names : List String) (state : Inlining) : Prop where
  finds : around.macro? = find
  lasting : state.exhausted = false
  distinct : state.active.Nodup
  known : ∀ name ∈ state.active, name ∈ around.macros.map Macro.name
  room : around.macros.length ≤ level + state.active.length
  used : ∀ user ∈ state.active, ∀ name ∈ names, Relation.TransGen (IsUsedBy find) name user

namespace Ready

variable {find : String → Option Macro} {around : Surroundings} {level : Nat}
  {names : List String} {state : Inlining}

theorem subset (ready : Ready find around level names state) {fewer : List String}
    (contained : fewer ⊆ names) : Ready find around level fewer state :=
  { ready with used := fun user active name member =>
      ready.used user active name (contained member) }

theorem adding (ready : Ready find around level names state) (toll : Nat)
    (value : List Expression) : Ready find around level names (state.adding toll value) :=
  { ready with }

theorem aside (ready : Ready find around level names state) :
    Ready find around level names { state with emitted := [] } :=
  { ready with }

/-- A name is not being inlined already where it can be inlined. -/
theorem fresh (ready : Ready find around level names state) {name : String}
    (member : name ∈ names) (ends : Acc (IsUsedBy find) name) : name ∉ state.active :=
  fun active => IsUsedBy.not_circular ends (ready.used name active name member)

/-- A macro can be entered, and the names that its body uses can be inlined there. -/
theorem enter (ready : Ready find around level names state) {name : String}
    {definition : Macro} (member : name ∈ names) (ends : Acc (IsUsedBy find) name)
    (found : find name = some definition) (named : definition.name = name) :
    ∃ below, level = below + 1 ∧
      Ready find around below (usesOfAll definition.parameters definition.body)
        { state with active := definition.name :: state.active } := by
  have isMacro : definition ∈ around.macros :=
    Surroundings.mem_of_macro? (ready.finds ▸ found)
  have distinct : (definition.name :: state.active).Nodup :=
    List.nodup_cons.mpr ⟨named ▸ ready.fresh member ends, ready.distinct⟩
  have known : ∀ other ∈ definition.name :: state.active,
      other ∈ around.macros.map Macro.name :=
    List.forall_mem_cons.mpr ⟨List.mem_map_of_mem isMacro, ready.known⟩
  have few : (definition.name :: state.active).length ≤ around.macros.length := by
    rw [← List.length_map Macro.name]
    exact distinct.length_le_of_subset known
  have room := ready.room
  rw [List.length_cons] at few
  refine ⟨level - 1, by omega, ?_⟩
  exact {
    finds := ready.finds
    lasting := ready.lasting
    distinct := distinct
    known := known
    room := by
      change _ ≤ level - 1 + (definition.name :: state.active).length
      rw [List.length_cons]
      omega
    used := by
      intro user active used inBody
      have step : IsUsedBy find used name := ⟨definition, found, inBody⟩
      rcases List.mem_cons.mp active with same | active
      · rw [same, named]
        exact .single step
      · exact .trans (.single step) (ready.used user active name member) }

theorem callee_eq_ok (ready : Ready find around level names state) {name : String}
    {definition : Macro} (member : name ∈ names) (ends : Acc (IsUsedBy find) name)
    (found : find name = some definition) (named : definition.name = name) {given : Nat}
    (arity : given = definition.parameters.length) (token : Token) :
    Inlining.callee around state.active name given token = .ok definition :=
  Inlining.callee_eq_ok_iff.mpr
    ⟨ready.finds ▸ found, named ▸ ready.fresh member ends, arity⟩

end Ready

/-! ### What it takes to inline -/

/-- Inlining an expression adds a value for a toll. -/
def InlinesTo (find : String → Option Macro) (environment : Environment)
    (expression : Expression) (value : List Expression) (toll : Nat) : Prop :=
  ∀ (around : Surroundings) (level : Nat) (bindings : Bindings) (state : Inlining),
    Ready find around level (expression.uses environment.names) state →
    Represents bindings environment → state.spent + toll ≤ around.limit →
    place around (unfoldTo around level) (substitute bindings expression) state =
      state.adding toll value

/-- Inlining a list adds the values of its elements for a toll. -/
def AllInlineTo (find : String → Option Macro) (environment : Environment)
    (list : List Expression) (values : List (List Expression)) (toll : Nat) : Prop :=
  ∀ (around : Surroundings) (level : Nat) (bindings : Bindings) (state : Inlining),
    Ready find around level (usesOfAll environment.names list) state →
    Represents bindings environment → state.spent + toll ≤ around.limit →
    placeAll around (unfoldTo around level) (list.map (substitute bindings)) state =
      state.adding toll values.flatten

/-- Inlining arguments passes their values on for a toll. -/
def ArgumentsInlineTo (find : String → Option Macro) (environment : Environment)
    (arguments : List Expression) (given : List (List Expression)) (toll : Nat) : Prop :=
  ∀ (around : Surroundings) (level : Nat) (bindings : Bindings) (state : Inlining),
    Ready find around level (usesOfAll environment.names arguments) state →
    Represents bindings environment → state.spent + toll ≤ around.limit →
    ∃ resolved, List.Forall₂ Passes resolved given ∧
      placeArguments around (unfoldTo around level) (arguments.map (substitute bindings))
        state = (resolved, state.adding toll [])

/-- Inlining the members of a chord adds their contributions for a toll. -/
def MembersInlineTo (find : String → Option Macro) (environment : Environment)
    (members : List ChordMember) (contributions : List (List ChordMember)) (toll : Nat) :
    Prop :=
  ∀ (around : Surroundings) (level : Nat) (bindings : Bindings)
    (progress : List ChordMember × Inlining),
    Ready find around level (members.flatMap (memberUses environment.names)) progress.2 →
    Represents bindings environment → progress.2.spent + toll ≤ around.limit →
    (members.flatMap (substituteMember bindings)).foldl
        (placeMember around (unfoldTo around level)) progress =
      (contributions.flatten.reverse ++ progress.1, progress.2.adding toll [])

section Tolls

variable {find : String → Option Macro} {environment : Environment}

/-! ### Names and calls -/

/-- What is emitted as it stands costs what it costs to emit. -/
theorem InlinesTo.of_emit {expression : Expression}
    (plain : ∀ around unfolding bindings state,
      place around unfolding (substitute bindings expression) state =
        state.emit around expression) :
    InlinesTo find environment expression [expression] (Inlining.cost expression) := by
  intro around level bindings state ready _ affordable
  rw [plain]
  exact (Inlining.emit_adds expression ready.lasting).eq_of_le affordable

/-- The value of a parameter is paid for once more where the parameter stands. -/
theorem InlinesTo.parameter {name : String} {value : List Expression} (token : Token)
    (bound : environment.lookup name = some value) :
    InlinesTo find environment (.reference name token) value (Inlining.chargeAll value) := by
  intro around level bindings state ready represents affordable
  obtain ⟨argument, found, passes⟩ := represents.lookup_of_some bound
  obtain ⟨origin, rfl⟩ := passes.gathered
  rw [substitute, found]
  exact (Inlining.place_gather passes.settled origin ready.lasting).eq_of_le affordable

/-- A macro whose body has values, for a toll, given what its parameters stand for. -/
structure BodyInlinesTo (find : String → Option Macro) (name : String) (definition : Macro)
    (given values : List (List Expression)) (toll : Nat) : Prop where
  found : find name = some definition
  named : definition.name = name
  complete : Environment.names (definition.parameters.zip given) = definition.parameters
  evaluates : EvaluatesEach find (definition.parameters.zip given) definition.body values
  inlines : AllInlineTo find (definition.parameters.zip given) definition.body values toll

namespace BodyInlinesTo

variable {name : String} {definition : Macro} {given values : List (List Expression)}
  {toll : Nat}

theorem ends (body : BodyInlinesTo find name definition given values toll) :
    Acc (IsUsedBy find) name := by
  have bodyEnds := body.evaluates.ends
  rw [body.complete] at bodyEnds
  exact IsUsedBy.acc_of_body body.found bodyEnds

/-- The body adds its values for its toll, wherever the macro can be entered. -/
theorem unfoldTo_eq (body : BodyInlinesTo find name definition given values toll)
    {around : Surroundings} {level : Nat} {names : List String} {state : Inlining}
    (ready : Ready find around level names state) (member : name ∈ names)
    {arguments : List Expression} (passes : List.Forall₂ Passes arguments given)
    (affordable : state.spent + toll ≤ around.limit) :
    unfoldTo around level definition arguments state = state.adding toll values.flatten := by
  have represents := Represents.zip passes definition.parameters
  obtain ⟨below, rfl, entered⟩ := ready.enter member body.ends body.found body.named
  rw [← body.complete] at entered
  have clear := chordProblems_eq_nil_iff.mpr (body.evaluates.clear represents)
  rw [Inlining.unfoldTo_of_clear around below clear,
    body.inlines around below _ _ entered represents (by exact affordable)]
  rfl

end BodyInlinesTo

theorem InlinesTo.name {name : String} {definition : Macro} {values : List (List Expression)}
    {toll : Nat} (token : Token) (free : environment.lookup name = none)
    (plain : definition.parameters = [])
    (body : BodyInlinesTo find name definition [] values toll) :
    InlinesTo find environment (.reference name token) values.flatten toll := by
  intro around level bindings state ready represents affordable
  have unbound : name ∉ environment.names := by
    rw [Environment.mem_names_iff]
    exact not_not_intro free
  rw [uses, if_neg unbound] at ready
  have member := List.mem_singleton_self name
  have arity : 0 = definition.parameters.length := by
    rw [plain]
    rfl
  have accepted := ready.callee_eq_ok member body.ends body.found body.named arity token
  rw [substitute, represents.lookup_of_none free]
  dsimp only
  rw [place, placeName, accepted]
  dsimp only
  rw [if_neg (by rw [ready.lasting]; exact Bool.false_ne_true)]
  exact body.unfoldTo_eq ready member .nil affordable

theorem InlinesTo.call {name : String} {arguments : List Expression} {definition : Macro}
    {given values : List (List Expression)} {first second : Nat} (token : Token)
    (arity : arguments.length = definition.parameters.length)
    (each : ArgumentsInlineTo find environment arguments given first)
    (body : BodyInlinesTo find name definition given values second) :
    InlinesTo find environment (.call name arguments token) values.flatten
      (first + second) := by
  intro around level bindings state ready represents affordable
  have member : name ∈ uses environment.names (.call name arguments token) :=
    List.mem_cons_self
  obtain ⟨resolved, passes, placed⟩ := each around level bindings state
    (ready.subset (List.subset_cons_self _ _)) represents (by omega)
  have substituted : (arguments.map (substitute bindings)).length =
      definition.parameters.length := by
    rw [List.length_map, arity]
  have accepted := ready.callee_eq_ok member body.ends body.found body.named substituted token
  rw [substitute_call, Inlining.place_call_of_ok accepted, placed]
  dsimp only
  rw [if_neg (by rw [Inlining.exhausted_adding, ready.lasting]; exact Bool.false_ne_true),
    body.unfoldTo_eq (ready.adding first []) member passes
      (by rw [Inlining.spent_adding]; omega), Inlining.adding_adding]
  rfl

/-! ### Groups, holds and chords -/

theorem InlinesTo.group {items : List Expression} {values : List (List Expression)}
    {toll : Nat} (token : Token) (each : AllInlineTo find environment items values toll) :
    InlinesTo find environment (.group items token) values.flatten toll := by
  intro around level bindings state ready represents affordable
  rw [substitute_group, place]
  exact each around level bindings state ready represents affordable

theorem InlinesTo.hold {inner single : Expression} {toll : Nat} (token : Token)
    (holdable : single.contribution?.isSome = true)
    (inside : InlinesTo find environment inner [single] toll) :
    InlinesTo find environment (.hold inner token) [.hold single token]
      (toll + Inlining.cost (.hold single token)) := by
  intro around level bindings state ready represents affordable
  have placed := inside around level bindings _ ready.aside represents
    (show state.spent + toll ≤ around.limit by omega)
  rw [substitute, place, placed, if_neg (by simp [ready.lasting]), Inlining.adding_aside]
  change Inlining.closeHold around [single] token _ = _
  rw [Inlining.closeHold_of_contribution holdable,
    (Inlining.emit_adds _ (ready.adding toll []).lasting).eq_of_le
      (by rw [Inlining.spent_adding]; omega), Inlining.adding_adding]
  rfl

theorem InlinesTo.chord {members : List ChordMember} {contributions : List (List ChordMember)}
    {toll : Nat} (token : Token)
    (each : MembersInlineTo find environment members contributions toll) :
    InlinesTo find environment (.chord members token) [.chord contributions.flatten token]
      (toll + Inlining.cost (.chord contributions.flatten token)) := by
  intro around level bindings state ready represents affordable
  have placed := each around level bindings ([], state) ready represents
    (show state.spent + toll ≤ around.limit by omega)
  rw [substitute, Inlining.place_chord, placed, List.append_nil]
  dsimp only
  rw [List.reverse_reverse,
    (Inlining.emit_adds _ (ready.adding toll []).lasting).eq_of_le
      (by rw [Inlining.spent_adding]; omega), Inlining.adding_adding]
  rfl

/-! ### Lists, arguments and members -/

theorem AllInlineTo.cons {item : Expression} {rest : List Expression}
    {value : List Expression} {values : List (List Expression)} {first second : Nat}
    (head : InlinesTo find environment item value first)
    (tail : AllInlineTo find environment rest values second) :
    AllInlineTo find environment (item :: rest) (value :: values) (first + second) := by
  intro around level bindings state ready represents affordable
  have placed := head around level bindings state
    (ready.subset (List.subset_append_left _ _)) represents (by omega)
  have others := tail around level bindings _
    ((ready.subset (List.subset_append_right _ _)).adding first value) represents
    (by rw [Inlining.spent_adding]; omega)
  rw [List.map_cons, placeAll, if_neg (by rw [ready.lasting]; exact Bool.false_ne_true),
    placed, others, Inlining.adding_adding]
  rfl

theorem ArgumentsInlineTo.cons {argument : Expression} {rest : List Expression}
    {value : List Expression} {given : List (List Expression)} {first second : Nat}
    (evaluates : Evaluates find environment argument value)
    (head : InlinesTo find environment argument value first)
    (tail : ArgumentsInlineTo find environment rest given second) :
    ArgumentsInlineTo find environment (argument :: rest) (value :: given)
      (first + second) := by
  intro around level bindings state ready represents affordable
  have placed := head around level bindings _
    (ready.subset (List.subset_append_left _ _)).aside represents
    (show state.spent + first ≤ around.limit by omega)
  obtain ⟨resolved, passes, others⟩ := tail around level bindings _
    ((ready.subset (List.subset_append_right _ _)).adding first []) represents
    (by rw [Inlining.spent_adding]; omega)
  refine ⟨Inlining.gather value.reverse (substitute bindings argument).token :: resolved,
    .cons ⟨⟨_, rfl⟩, evaluates.settled represents.isSettled⟩ passes, ?_⟩
  rw [List.map_cons, placeArguments, placed, Inlining.adding_aside, others,
    Inlining.adding_adding, Inlining.emitted_adding]
  dsimp only
  rw [List.append_nil]
  rfl

/-- Members that are notes already, in place of a member, are contributed for nothing. -/
theorem MembersInlineTo.cons_of_notes {member : ChordMember} {rest : List ChordMember}
    {contribution : List ChordMember} {contributions : List (List ChordMember)} {toll : Nat}
    (notes : allNotes contribution = true)
    (same : ∀ bindings, Represents bindings environment →
      substituteMember bindings member = contribution)
    (tail : MembersInlineTo find environment rest contributions toll) :
    MembersInlineTo find environment (member :: rest) (contribution :: contributions)
      toll := by
  intro around level bindings progress ready represents affordable
  rw [List.flatMap_cons, List.foldl_append, same bindings represents,
    Inlining.placeMembers_of_notes notes,
    tail around level bindings (contribution.reverse ++ progress.1, progress.2)
      (ready.subset (List.subset_append_right _ _)) represents affordable,
    List.flatten_cons, List.reverse_append, List.append_assoc]

theorem MembersInlineTo.name {name : String} {rest : List ChordMember}
    {value : List Expression} {parts : List (List ChordMember)}
    {contributions : List (List ChordMember)} {first second : Nat} (token : Token)
    (free : environment.lookup name = none)
    (contributed : value.mapM Expression.contribution? = some parts)
    (inside : InlinesTo find environment (.reference name token) value first)
    (tail : MembersInlineTo find environment rest contributions second) :
    MembersInlineTo find environment (.reference name token :: rest)
      (parts.flatten :: contributions) (first + second) := by
  intro around level bindings progress ready represents affordable
  have placed := inside around level bindings _
    (ready.subset (List.subset_append_left _ _)).aside represents
    (show progress.2.spent + first ≤ around.limit by omega)
  have unbound := represents.lookup_of_none free
  rw [substitute, unbound] at placed
  have member := Inlining.placeMember_of_parts placed contributed
  have others := tail around level bindings
    (parts.flatten.reverse ++ progress.1, progress.2.adding first [])
    ((ready.subset (List.subset_append_right _ _)).adding first []) represents
    (show progress.2.spent + first + second ≤ around.limit by omega)
  rw [List.flatMap_cons, List.foldl_append, substituteMember_of_free unbound, List.foldl_cons,
    List.foldl_nil, member, others, List.flatten_cons, List.reverse_append, List.append_assoc,
    Inlining.adding_adding]
  rfl

/-! ### Everything with a value -/

mutual

/-- An expression with a value is inlined to it, for a toll. -/
theorem Evaluates.inlines {environment : Environment} {expression : Expression}
    {value : List Expression} (known : environment.IsSettled)
    (faithful : ∀ name definition, find name = some definition → definition.name = name) :
    Evaluates find environment expression value →
      ∃ toll, InlinesTo find environment expression value toll
  | .note _ => ⟨_, .of_emit fun _ _ _ _ => rfl⟩
  | .release _ => ⟨_, .of_emit fun _ _ _ _ => rfl⟩
  | .directive _ _ => ⟨_, .of_emit fun _ _ _ _ => rfl⟩
  | .bar _ => ⟨_, .of_emit fun _ _ _ _ => rfl⟩
  | .placeholder _ => ⟨_, .of_emit fun _ _ _ _ => rfl⟩
  | .parameter token bound => ⟨_, .parameter token bound⟩
  | .name token free found plain body => by
      obtain ⟨toll, inlines, _⟩ := body.inlines Environment.isSettled_nil faithful
      exact ⟨toll, .name token free plain ⟨found, faithful _ _ found, by rw [plain]; rfl,
        by rw [plain]; exact body, by rw [plain]; exact inlines⟩⟩
  | .call token found arity each body => by
      obtain ⟨first, _, arguments⟩ := each.inlines known faithful
      obtain ⟨second, inlines, _⟩ :=
        body.inlines (Environment.isSettled_zip (each.settled known) _) faithful
      exact ⟨first + second, .call token arity arguments
        ⟨found, faithful _ _ found, each.names_zip arity, body, inlines⟩⟩
  | .group token each => by
      obtain ⟨toll, inlines, _⟩ := each.inlines known faithful
      exact ⟨toll, .group token inlines⟩
  | .hold token inside holdable => by
      obtain ⟨toll, inlines⟩ := inside.inlines known faithful
      exact ⟨_, .hold token holdable inlines⟩
  | .chord token each => by
      obtain ⟨toll, inlines⟩ := each.inlines known faithful
      exact ⟨_, .chord token inlines⟩

theorem EvaluatesEach.inlines {environment : Environment} {list : List Expression}
    {values : List (List Expression)} (known : environment.IsSettled)
    (faithful : ∀ name definition, find name = some definition → definition.name = name) :
    EvaluatesEach find environment list values →
      ∃ toll, AllInlineTo find environment list values toll ∧
        ArgumentsInlineTo find environment list values toll
  | .nil => ⟨0, fun _ _ _ _ _ _ _ => rfl, fun _ _ _ _ _ _ _ => ⟨[], .nil, rfl⟩⟩
  | .cons head tail => by
      obtain ⟨first, item⟩ := head.inlines known faithful
      obtain ⟨second, rest, others⟩ := tail.inlines known faithful
      exact ⟨first + second, .cons item rest, .cons head item others⟩

theorem EvaluatesMembers.inlines {environment : Environment} {members : List ChordMember}
    {contributions : List (List ChordMember)} (known : environment.IsSettled)
    (faithful : ∀ name definition, find name = some definition → definition.name = name) :
    EvaluatesMembers find environment members contributions →
      ∃ toll, MembersInlineTo find environment members contributions toll
  | .nil => ⟨0, fun _ _ _ _ _ _ _ => rfl⟩
  | .note written tail => by
      obtain ⟨toll, rest⟩ := tail.inlines known faithful
      exact ⟨toll, .cons_of_notes rfl (fun _ _ => rfl) rest⟩
  | .parameter token bound contributed tail => by
      obtain ⟨toll, rest⟩ := tail.inlines known faithful
      have settled := known _ _ bound _ (List.mem_singleton_self _)
      refine ⟨toll, .cons_of_notes (settled.notes_of_contribution contributed) ?_ rest⟩
      intro bindings represents
      obtain ⟨argument, found, passes⟩ := represents.lookup_of_some bound
      exact substituteMember_of_bound found
        (passes.contribution?_eq_some_iff.mpr ⟨_, rfl, contributed⟩) token
  | .name token free inside contributed tail => by
      obtain ⟨first, name⟩ := inside.inlines known faithful
      obtain ⟨second, rest⟩ := tail.inlines known faithful
      exact ⟨first + second, .name token free contributed name rest⟩

end

end Tolls

/-! ### Lists that stand in no macro -/

/-- A list with values becomes them without problems, if the budget allows a certain
toll. -/
theorem EvaluatesEach.exists_toll {find : String → Option Macro} {list : List Expression}
    {values : List (List Expression)} (each : EvaluatesEach find [] list values)
    (faithful : ∀ name definition, find name = some definition → definition.name = name) :
    ∃ toll, ∀ around : Surroundings, around.macro? = find → toll ≤ around.limit →
      (Inlining.ofList around list).problems = [] := by
  obtain ⟨toll, inlines, _⟩ := each.inlines Environment.isSettled_nil faithful
  refine ⟨toll, fun around finds affordable => ?_⟩
  have ready : Ready find around around.macros.length (usesOfAll [] list) Inlining.start := {
    finds := finds
    lasting := rfl
    distinct := List.nodup_nil
    known := List.forall_mem_nil _
    room := Nat.le_refl _
    used := List.forall_mem_nil _ }
  have placed := inlines around around.macros.length [] Inlining.start ready .nil
    (by rw [show Inlining.start.spent = 0 from rfl]; omega)
  rw [List.map_congr_left fun item _ => substitute_nil item, List.map_id'] at placed
  unfold Inlining.ofList
  rw [placed]
  rfl

end Solfege
