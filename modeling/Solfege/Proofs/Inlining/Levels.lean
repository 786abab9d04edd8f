import Solfege.Proofs.Inlining.Course
import Mathlib.Data.List.Dedup

/-!
Contract: how many macros can be inlined inside each other.

Owns:
- the names of macros that can be inlined inside each other, which are distinct and so no
  more than there are;
- the proof that two ways to inline the bodies of macros make no difference where they agree
  on every macro that can still be entered;
- the proof that the number of levels makes no difference, if there is one for each name.

Does not own: the order in which macros are entered and left.

Names are counted and not macros. A macro of a name that was defined before can be there, and
a name can stand for a macro of another name, but only the name of a macro keeps it from being
entered again.
-/

namespace Solfege

/-- The names that macros have, each of them once. -/
def Surroundings.macroNames (around : Surroundings) : List String :=
  (around.macros.map Macro.name).dedup

theorem Surroundings.length_macroNames_le (around : Surroundings) :
    around.macroNames.length ≤ around.macros.length := by
  have fewer := (List.dedup_sublist (around.macros.map Macro.name)).length_le
  rwa [List.length_map] at fewer

namespace Inlining

/-! ### Stacks -/

/-- The names can be those of macros inside each other: they are distinct, and each of them is
the name of a macro. -/
structure Stacked (around : Surroundings) (active : List String) : Prop where
  distinct : active.Nodup
  known : ∀ name ∈ active, ∃ definition ∈ around.macros, definition.name = name

namespace Stacked

variable {around : Surroundings} {active : List String} {definition : Macro}

theorem nil (around : Surroundings) : Stacked around [] :=
  ⟨List.nodup_nil, List.forall_mem_nil _⟩

theorem push (stacked : Stacked around active) (member : definition ∈ around.macros)
    (fresh : definition.name ∉ active) : Stacked around (definition.name :: active) :=
  ⟨List.nodup_cons.mpr ⟨fresh, stacked.distinct⟩,
    List.forall_mem_cons.mpr ⟨⟨definition, member, rfl⟩, stacked.known⟩⟩

theorem length_le (stacked : Stacked around active) :
    active.length ≤ around.macroNames.length := by
  apply stacked.distinct.length_le_of_subset
  intro name running
  obtain ⟨definition, member, rfl⟩ := stacked.known name running
  exact List.mem_dedup.mpr (List.mem_map_of_mem member)

/-- A macro that can be entered leaves less room than there was. -/
theorem length_lt (stacked : Stacked around active) (member : definition ∈ around.macros)
    (fresh : definition.name ∉ active) : active.length < around.macroNames.length :=
  (stacked.push member fresh).length_le

/-- Where there are levels for all names, there is one for a macro that can be entered. -/
theorem exists_level {level : Nat} (stacked : Stacked around active)
    (room : around.macroNames.length ≤ level + active.length)
    (member : definition ∈ around.macros) (fresh : definition.name ∉ active) :
    ∃ below, level = below + 1 ∧
      around.macroNames.length ≤ below + (definition.name :: active).length := by
  have few := stacked.length_lt member fresh
  refine ⟨level - 1, by omega, ?_⟩
  rw [List.length_cons]
  omega

end Stacked

/-! ### Bodies that are inlined alike -/

/-- The two inline every macro alike that can be entered inside of the given ones. -/
def AgreeInside (around : Surroundings) (active : List String) (unfolding other : Unfolding) :
    Prop :=
  ∀ definition arguments state, definition ∈ around.macros → definition.name ∉ active →
    state.active = active → unfolding definition arguments state = other definition arguments state

namespace AgreeInside

section Members

variable {around : Surroundings} {active : List String} {unfolding other : Unfolding}
  (agree : AgreeInside around active unfolding other)

include agree

theorem placeName (name : String) (token : Token) {state : Inlining}
    (here : state.active = active) :
    Inlining.placeName around unfolding name token state =
      Inlining.placeName around other name token state := by
  unfold Inlining.placeName
  cases accepted : callee around state.active name 0 token with
  | error diagnostic => rfl
  | ok definition =>
      obtain ⟨found, fresh, _⟩ := callee_eq_ok_iff.mp accepted
      dsimp only
      rw [agree definition [] state (Surroundings.mem_of_macro? found) (here ▸ fresh) here]

theorem placeMember {progress : List ChordMember × Inlining} (here : progress.2.active = active)
    (member : ChordMember) :
    Inlining.placeMember around unfolding progress member =
      Inlining.placeMember around other progress member := by
  cases member with
  | note written => rfl
  | reference name token =>
      have inside : Inlining.placeName around unfolding name token { progress.2 with emitted := [] } =
          Inlining.placeName around other name token { progress.2 with emitted := [] } :=
        agree.placeName name token here
      unfold Inlining.placeMember
      dsimp only at inside ⊢
      rw [inside]

theorem placeMembers (unfolds : Unfolds around unfolding) (members : List ChordMember)
    {progress : List ChordMember × Inlining} (here : progress.2.active = active) :
    members.foldl (Inlining.placeMember around unfolding) progress =
      members.foldl (Inlining.placeMember around other) progress := by
  induction members generalizing progress with
  | nil => rfl
  | cons member rest inductionHypothesis =>
      have still := (placeMember_course unfolds progress member).active_eq
      rw [List.foldl_cons, List.foldl_cons, inductionHypothesis (still.trans here),
        agree.placeMember here]

end Members

mutual

theorem place {around : Surroundings} {active : List String} {unfolding other : Unfolding}
    (agree : AgreeInside around active unfolding other) (unfolds : Unfolds around unfolding)
    (expression : Expression) {state : Inlining} (here : state.active = active) :
    Inlining.place around unfolding expression state =
      Inlining.place around other expression state := by
  cases expression with
  | reference name token =>
      rw [Inlining.place, Inlining.place]
      exact agree.placeName name token here
  | call name arguments token =>
      cases accepted : callee around state.active name arguments.length token with
      | error diagnostic => rw [place_call_of_error accepted, place_call_of_error accepted]
      | ok definition =>
          obtain ⟨found, fresh, _⟩ := callee_eq_ok_iff.mp accepted
          have still := (placeArguments_course unfolds arguments state).active_eq.trans here
          rw [place_call_of_ok accepted, place_call_of_ok accepted,
            ← agree.placeArguments unfolds arguments here,
            agree definition _ _ (Surroundings.mem_of_macro? found) (here ▸ fresh) still]
  | group items token =>
      rw [Inlining.place, Inlining.place]
      exact agree.placeAll unfolds items here
  | chord members token =>
      have begun : (([] : List ChordMember), state).2.active = active := here
      rw [place_chord, place_chord, agree.placeMembers unfolds members begun]
  | hold inner token =>
      have inside : Inlining.place around unfolding inner { state with emitted := [] } =
          Inlining.place around other inner { state with emitted := [] } :=
        agree.place unfolds inner here
      rw [Inlining.place, Inlining.place, inside]
  | _ => rfl

theorem placeAll {around : Surroundings} {active : List String} {unfolding other : Unfolding}
    (agree : AgreeInside around active unfolding other) (unfolds : Unfolds around unfolding)
    (list : List Expression) {state : Inlining} (here : state.active = active) :
    Inlining.placeAll around unfolding list state =
      Inlining.placeAll around other list state := by
  cases list with
  | nil => rfl
  | cons item rest =>
      have still := (place_course unfolds item state).active_eq.trans here
      rw [Inlining.placeAll, Inlining.placeAll, agree.placeAll unfolds rest still,
        agree.place unfolds item here]

theorem placeArguments {around : Surroundings} {active : List String}
    {unfolding other : Unfolding} (agree : AgreeInside around active unfolding other)
    (unfolds : Unfolds around unfolding) (arguments : List Expression) {state : Inlining}
    (here : state.active = active) :
    Inlining.placeArguments around unfolding arguments state =
      Inlining.placeArguments around other arguments state := by
  cases arguments with
  | nil => rfl
  | cons argument rest =>
      have inside : Inlining.place around unfolding argument { state with emitted := [] } =
          Inlining.place around other argument { state with emitted := [] } :=
        agree.place unfolds argument here
      have still := (place_course unfolds argument { state with emitted := [] }).active_eq.trans here
      rw [inside] at still
      have others : Inlining.placeArguments around unfolding rest
            { Inlining.place around other argument { state with emitted := [] } with
              emitted := state.emitted } =
          Inlining.placeArguments around other rest
            { Inlining.place around other argument { state with emitted := [] } with
              emitted := state.emitted } :=
        agree.placeArguments unfolds rest still
      rw [Inlining.placeArguments, Inlining.placeArguments, inside]
      dsimp only
      rw [others]

end

end AgreeInside

/-! ### Levels -/

/-- Inside of macros that leave a level for every other name, the number of levels makes no
difference. -/
theorem agreeInside_unfoldTo {around : Surroundings} {active : List String} {level more : Nat}
    (stacked : Stacked around active) (room : around.macroNames.length ≤ level + active.length)
    (moreRoom : around.macroNames.length ≤ more + active.length) :
    AgreeInside around active (unfoldTo around level) (unfoldTo around more) := by
  induction level generalizing more active with
  | zero =>
      intro definition arguments state member fresh _
      obtain ⟨below, impossible, _⟩ := stacked.exists_level room member fresh
      contradiction
  | succ level inductionHypothesis =>
      intro definition arguments state member fresh here
      obtain ⟨_, isLevel, roomInside⟩ := stacked.exists_level room member fresh
      obtain rfl := Nat.succ.inj isLevel
      obtain ⟨below, rfl, moreRoomInside⟩ := stacked.exists_level moreRoom member fresh
      have inside := inductionHypothesis (stacked.push member fresh) roomInside moreRoomInside
      have warned := (fails_course around (Expression.chordProblems
        (definition.parameters.zip arguments) definition.body) state).active_eq.trans here
      rw [unfoldTo, unfoldTo, inside.placeAll (unfoldTo_course around level) _ (by rw [← warned])]

/-- A list that stands in no macro is inlined alike under all numbers of levels that are
enough for the names. -/
theorem next_eq_of_levels (around : Surroundings) (list : List Expression) (state : Inlining)
    {level : Nat} (enough : around.macroNames.length ≤ level) :
    placeAll around (unfoldTo around level) list state.renewed = state.next around list := by
  have room : around.macroNames.length ≤ level + ([] : List String).length := enough
  have agree := agreeInside_unfoldTo (.nil around) room around.length_macroNames_le
  exact agree.placeAll (unfoldTo_course around level) list rfl

end Inlining

end Solfege
