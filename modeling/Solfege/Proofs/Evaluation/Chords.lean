import Solfege.Proofs.Evaluation.Binding
import Solfege.Proofs.Evaluation.Demands
import Solfege.Proofs.Shape.Parts

/-!
Contract: how many notes the chords of a value have.

Owns:
- the expressions all of whose chords have several members;
- the names that stand as members of chords, in a list and in the macros that it reaches;
- the proof that where none of these names stands for nothing, a value has chords with
  several members only.

Does not own: which names stand for nothing.

A member that is a parameter stands for one note or one chord, and so never for nothing. A
member that is a macro stands for whatever its body becomes, which need not be anything.
-/

namespace Solfege

namespace Expression

/-! ### Chords with several members -/

/-- Every chord in the expression, at any depth, has several members. -/
def Full (expression : Expression) : Prop :=
  ∀ members token, Part (.chord members token) expression → 2 ≤ members.length

theorem Formed.full {expression : Expression} (formed : Formed expression) :
    Full expression := by
  intro members token isPart
  cases isPart.formed formed with
  | chord _ several _ _ => exact several

section Parts

variable {items arguments : List Expression} {inner : Expression} {name : String}
  {members : List ChordMember} {token : Token}

theorem Full.each_item (full : Full (.group items token)) : ∀ item ∈ items, Full item :=
  fun _ member members place isPart => full members place (.item token member isPart)

theorem Full.each_argument (full : Full (.call name arguments token)) :
    ∀ argument ∈ arguments, Full argument :=
  fun _ member members place isPart => full members place (.argument name token member isPart)

theorem Full.held (full : Full (.hold inner token)) : Full inner :=
  fun members place isPart => full members place (.held token isPart)

theorem Full.hold (full : Full inner) : Full (.hold inner token) := by
  intro members place isPart
  cases isPart with
  | held _ inside => exact full members place inside

theorem full_chord (several : 2 ≤ members.length) : Full (.chord members token) := by
  intro others place isPart
  cases isPart
  exact several

theorem full_reference (name : String) (token : Token) : Full (.reference name token) := by
  intro members place isPart
  contradiction

end Parts

/-- What a note or a chord contributes to another chord is at least one note. -/
theorem Full.length_contribution {expression : Expression} {contribution : List ChordMember}
    (full : Full expression) (contributed : expression.contribution? = some contribution) :
    1 ≤ contribution.length := by
  cases expression with
  | note written =>
      obtain rfl := Option.some.inj contributed
      exact Nat.le_refl 1
  | chord members token =>
      obtain rfl := Option.some.inj contributed
      exact Nat.le_of_succ_le (full members token (.itself _))
  | _ => contradiction

/-- Notes and chords contribute at least one note each. -/
theorem length_le_of_contributions {value : List Expression}
    {parts : List (List ChordMember)} (full : ∀ item ∈ value, Full item)
    (contributed : value.mapM contribution? = some parts) :
    value.length ≤ parts.flatten.length := by
  induction value generalizing parts with
  | nil => exact Nat.zero_le _
  | cons item rest inductionHypothesis =>
      rw [List.forall_mem_cons] at full
      obtain ⟨contribution, others, here, behind, rfl⟩ :=
        mapM_contribution?_cons_iff.mp contributed
      have first := full.1.length_contribution here
      have further := inductionHypothesis full.2 behind
      rw [List.length_cons, List.flatten_cons, List.length_append]
      omega

/-! ### Names in chords -/

mutual

/-- The names that stand as members of chords in an expression, at any depth, apart from
parameters. -/
def memberNames (parameters : List String) : Expression → List String
  | .chord members _ => members.flatMap (memberUses parameters)
  | .call _ arguments _ => memberNamesOfAll parameters arguments
  | .group items _ => memberNamesOfAll parameters items
  | .hold inner _ => memberNames parameters inner
  | _ => []

/-- The names that stand as members of chords in the elements of a list. -/
def memberNamesOfAll (parameters : List String) : List Expression → List String
  | [] => []
  | item :: rest => memberNames parameters item ++ memberNamesOfAll parameters rest

end

end Expression

open Expression

/-- The name is a member of a chord in a list, or in a macro that the list reaches. -/
inductive ReachesMember (find : String → Option Macro) (list : List Expression) :
    String → Prop where
  | direct {name : String} (member : name ∈ memberNamesOfAll [] list) :
      ReachesMember find list name
  | through {demand : Demand} {definition : Macro} {name : String}
      (reached : Reaches find list demand) (found : find demand.name = some definition)
      (member : name ∈ memberNamesOfAll definition.parameters definition.body) :
      ReachesMember find list name

/-- No name that is reached as a member of a chord stands for nothing. -/
def MembersSound (find : String → Option Macro) (list : List Expression) : Prop :=
  ∀ name, ReachesMember find list name → ∀ token, ¬Evaluates find [] (.reference name token) []

/-- A list reaches the given demands, and the given names as members of chords. -/
structure Covers (find : String → Option Macro) (list : List Expression)
    (demands : List Demand) (names : List String) : Prop where
  demands : ∀ demand ∈ demands, Reaches find list demand
  members : ∀ name ∈ names, ReachesMember find list name

section Covers

variable {find : String → Option Macro} {list : List Expression}

theorem covers_self (find : String → Option Macro) (list : List Expression) :
    Covers find list (demandsOfAll [] list) (memberNamesOfAll [] list) :=
  ⟨fun _ => .direct, fun _ => .direct⟩

theorem covers_append_iff {demands others : List Demand} {names further : List String} :
    Covers find list (demands ++ others) (names ++ further) ↔
      Covers find list demands names ∧ Covers find list others further := by
  constructor
  · rintro ⟨reached, members⟩
    rw [List.forall_mem_append] at reached members
    exact ⟨⟨reached.1, members.1⟩, reached.2, members.2⟩
  · rintro ⟨first, second⟩
    exact ⟨List.forall_mem_append.mpr ⟨first.demands, second.demands⟩,
      List.forall_mem_append.mpr ⟨first.members, second.members⟩⟩

/-- What a macro refers to is reached where the macro is. -/
theorem Reaches.covers_body {demand : Demand} {definition : Macro}
    (reached : Reaches find list demand) (found : find demand.name = some definition) :
    Covers find list (demandsOfAll definition.parameters definition.body)
      (memberNamesOfAll definition.parameters definition.body) :=
  ⟨fun _ => .through reached found, fun _ => .through reached found⟩

end Covers

/-! ### Values -/

/-- An environment in whose values every chord has several members. -/
def Environment.IsFull (environment : Environment) : Prop :=
  ∀ name value, environment.lookup name = some value → ∀ item ∈ value, Full item

theorem Environment.isFull_nil : Environment.IsFull [] := by
  intro _ _ impossible
  contradiction

theorem Environment.isFull_zip {given : List (List Expression)}
    (full : ∀ value ∈ given, ∀ item ∈ value, Full item) (parameters : List String) :
    Environment.IsFull (parameters.zip given) := by
  intro name value bound
  exact full value (mem_of_lookup_zip bound)

section Values

variable {find : String → Option Macro} {list : List Expression}

/-- A name that is no parameter has its value in every environment. -/
theorem Evaluates.of_free {environment : Environment} {name : String} {token : Token}
    {value : List Expression} (free : environment.lookup name = none)
    (evaluates : Evaluates find environment (.reference name token) value) :
    Evaluates find [] (.reference name token) value := by
  cases evaluates with
  | parameter _ bound => rw [bound] at free; contradiction
  | name _ _ found plain body => exact .name token rfl found plain body

/-- A name that is no parameter is asked for. -/
theorem Covers.reference {environment : Environment} {name : String} {token : Token}
    {names : List String} (free : environment.lookup name = none)
    (covers : Covers find list ((Expression.reference name token).demands environment.names)
      names) : Reaches find list ⟨name, 0⟩ := by
  apply covers.demands
  rw [Expression.demands, if_neg (Environment.not_mem_names free)]
  exact List.mem_singleton_self _

/-- A name in a chord does not stand for nothing. -/
theorem Evaluates.ne_nil_of_member {environment : Environment} {name : String}
    {token : Token} {value : List Expression}
    (sounding : MembersSound find list)
    (free : environment.lookup name = none)
    (reached : ∀ used ∈ memberUses environment.names (.reference name token),
      ReachesMember find list used)
    (evaluates : Evaluates find environment (.reference name token) value) : value ≠ [] := by
  rw [memberUses, if_neg (Environment.not_mem_names free),
    List.forall_mem_singleton] at reached
  rintro rfl
  exact sounding name reached token (evaluates.of_free free)

mutual

/-- The chords of a value have several members, if those of all bodies have and no name in a
chord stands for nothing. -/
theorem Evaluates.full {environment : Environment} {expression : Expression}
    {value : List Expression}
    (bodies : ∀ name definition, find name = some definition →
      ∀ item ∈ definition.body, Full item)
    (sounding : MembersSound find list)
    (known : environment.IsFull) (full : Full expression)
    (covers : Covers find list (expression.demands environment.names)
      (expression.memberNames environment.names)) :
    Evaluates find environment expression value → ∀ item ∈ value, Full item
  | .note _ => List.forall_mem_singleton.mpr full
  | .release _ => List.forall_mem_singleton.mpr full
  | .directive _ _ => List.forall_mem_singleton.mpr full
  | .bar _ => List.forall_mem_singleton.mpr full
  | .placeholder _ => List.forall_mem_singleton.mpr full
  | .parameter _ bound => known _ _ bound
  | .name _ free found plain body => by
      have inside := (covers.reference free).covers_body found
      rw [plain] at inside
      exact List.forall_mem_flatten.mpr
        (body.full bodies sounding Environment.isFull_nil (bodies _ _ found) inside)
  | .call _ found arity each body => by
      have inside := (covers.demands _ List.mem_cons_self).covers_body found
      rw [← each.names_zip arity] at inside
      have given := each.full bodies sounding known full.each_argument
        ⟨fun demand member => covers.demands demand (List.mem_cons_of_mem _ member),
          covers.members⟩
      exact List.forall_mem_flatten.mpr
        (body.full bodies sounding (Environment.isFull_zip given _) (bodies _ _ found) inside)
  | .group _ each =>
      List.forall_mem_flatten.mpr (each.full bodies sounding known full.each_item covers)
  | .hold _ inside _ => by
      have single := inside.full bodies sounding known full.held covers
      exact List.forall_mem_singleton.mpr (List.forall_mem_singleton.mp single).hold
  | .chord _ each =>
      List.forall_mem_singleton.mpr (full_chord (Nat.le_trans (full _ _ (.itself _))
        (each.length_le bodies sounding known covers)))

theorem EvaluatesEach.full {environment : Environment} {items : List Expression}
    {values : List (List Expression)}
    (bodies : ∀ name definition, find name = some definition →
      ∀ item ∈ definition.body, Full item)
    (sounding : MembersSound find list)
    (known : environment.IsFull) (full : ∀ item ∈ items, Full item)
    (covers : Covers find list (demandsOfAll environment.names items)
      (memberNamesOfAll environment.names items)) :
    EvaluatesEach find environment items values → ∀ value ∈ values, ∀ item ∈ value, Full item
  | .nil => fun _ impossible => absurd impossible List.not_mem_nil
  | .cons head tail => by
      rw [List.forall_mem_cons] at full
      obtain ⟨here, behind⟩ := covers_append_iff.mp covers
      exact List.forall_mem_cons.mpr ⟨head.full bodies sounding known full.1 here,
        tail.full bodies sounding known full.2 behind⟩

/-- Each member contributes at least one note. -/
theorem EvaluatesMembers.length_le {environment : Environment} {members : List ChordMember}
    {contributions : List (List ChordMember)}
    (bodies : ∀ name definition, find name = some definition →
      ∀ item ∈ definition.body, Full item)
    (sounding : MembersSound find list)
    (known : environment.IsFull)
    (covers : Covers find list (members.flatMap (memberDemands environment.names))
      (members.flatMap (memberUses environment.names))) :
    EvaluatesMembers find environment members contributions →
      members.length ≤ contributions.flatten.length
  | .nil => Nat.le_refl 0
  | .note written tail => by
      have further := tail.length_le bodies sounding known (covers_append_iff.mp covers).2
      rw [List.length_cons, List.flatten_cons, List.length_append, List.length_singleton]
      omega
  | .parameter _ bound contributed tail => by
      have first := (known _ _ bound _ (List.mem_singleton_self _)).length_contribution
        contributed
      have further := tail.length_le bodies sounding known (covers_append_iff.mp covers).2
      rw [List.length_cons, List.flatten_cons, List.length_append]
      omega
  | .name token free inside contributed tail => by
      obtain ⟨here, behind⟩ := covers_append_iff.mp covers
      have further := tail.length_le bodies sounding known behind
      have full := inside.full bodies sounding known (full_reference _ _)
        ⟨here.demands, List.forall_mem_nil _⟩
      have first := length_le_of_contributions full contributed
      have something := List.length_pos_of_ne_nil
        (inside.ne_nil_of_member sounding free here.members)
      rw [List.length_cons, List.flatten_cons, List.length_append]
      omega

end

end Values

end Solfege
