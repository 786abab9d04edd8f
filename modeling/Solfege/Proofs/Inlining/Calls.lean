import Solfege.Proofs.Inlining.Levels
import Mathlib.Logic.Relation

/-!
Contract: the calls of which the inlining of a movement consists.

Owns:
- the work that is done by itself in the course of an inlining, and which calls each piece of it
  makes, without a bound on how they nest;
- the macros that are being inlined at the beginning and at the end of every call;
- the main result: the calls end, whatever the names stand for, and the stack of macros is
  sound in each and left as it was found.

Does not own: what a call emits.

Arguments grow when they are put in place, so no size falls from a call to those that it makes.
What falls is the number of names that can still be entered and, as long as none is, the size of
what is left to do.
-/

namespace Solfege

open Expression (substituteAll)

namespace Inlining

/-- Inlines the body of a macro to as many levels as there are macros. -/
abbrev unfoldAll (around : Surroundings) : Unfolding :=
  unfoldTo around around.macros.length

/-- The state in which the body of a macro is begun, with its arguments in place. -/
def entering (definition : Macro) (arguments : List Expression) (state : Inlining) : Inlining :=
  let bindings := definition.parameters.zip arguments
  let warned := (Expression.chordProblems bindings definition.body).foldl fail state
  { warned with active := definition.name :: warned.active }

/-- The state in which a macro is left. -/
def leaving (state : Inlining) : Inlining :=
  { state with active := state.active.tail }

theorem active_entering (definition : Macro) (arguments : List Expression) (state : Inlining) :
    (entering definition arguments state).active = definition.name :: state.active := by
  have warned := (fails_course ⟨[], .empty, 0, default⟩ (Expression.chordProblems
    (definition.parameters.zip arguments) definition.body) state).active_eq
  unfold entering
  dsimp only
  rw [warned]

/-! ### Calls -/

/-- What is done by itself in the course of an inlining. -/
inductive Work where
  | expression (item : Expression)
  | list (items : List Expression)
  /-- The arguments of a call, one after the other. -/
  | arguments (items : List Expression)
  /-- The members of a chord behind those that are made, which are given latest first. -/
  | members (made behind : List ChordMember)
  /-- The body of a macro, with arguments in place of its parameters. -/
  | body (definition : Macro) (arguments : List Expression)

/-- The size of what there is to do before a macro is entered. -/
noncomputable def Work.size : Work → Nat
  | .expression item => sizeOf item
  | .list items => sizeOf items
  | .arguments items => sizeOf items
  | .members _ behind => sizeOf behind
  | .body _ _ => 0

/-- A macro whose body is to be inlined is one of the score, and is not being inlined. -/
def Work.Allowed (around : Surroundings) (active : List String) : Work → Prop
  | .body definition _ => definition ∈ around.macros ∧ definition.name ∉ active
  | _ => True

/-- Some work and the state in which it is begun. -/
structure Call where
  work : Work
  state : Inlining

namespace Call

/-- The state in which a call ends. -/
def finish (around : Surroundings) : Call → Inlining
  | ⟨.expression expression, state⟩ => place around (unfoldAll around) expression state
  | ⟨.list list, state⟩ => placeAll around (unfoldAll around) list state
  | ⟨.arguments arguments, state⟩ =>
      (placeArguments around (unfoldAll around) arguments state).2
  | ⟨.members made members, state⟩ =>
      (members.foldl (placeMember around (unfoldAll around)) (made, state)).2
  | ⟨.body definition arguments, state⟩ => unfoldAll around definition arguments state

/-- The first call makes the second one. Where it makes several, each of them is begun in the
state in which the one before it ends. -/
inductive Makes (around : Surroundings) : Call → Call → Prop where
  | first {item : Expression} {rest : List Expression} {state : Inlining}
      (lasting : state.exhausted = false) :
      Makes around ⟨.list (item :: rest), state⟩ ⟨.expression item, state⟩
  | rest {item : Expression} {rest : List Expression} {state : Inlining}
      (lasting : state.exhausted = false) :
      Makes around ⟨.list (item :: rest), state⟩
        ⟨.list rest, place around (unfoldAll around) item state⟩
  | items (items : List Expression) (token : Token) (state : Inlining) :
      Makes around ⟨.expression (.group items token), state⟩ ⟨.list items, state⟩
  | held (inner : Expression) (token : Token) (state : Inlining) :
      Makes around ⟨.expression (.hold inner token), state⟩
        ⟨.expression inner, { state with emitted := [] }⟩
  | members (members : List ChordMember) (token : Token) (state : Inlining) :
      Makes around ⟨.expression (.chord members token), state⟩ ⟨.members [] members, state⟩
  | member (name : String) (token : Token) (made rest : List ChordMember) (state : Inlining) :
      Makes around ⟨.members made (.reference name token :: rest), state⟩
        ⟨.expression (.reference name token), { state with emitted := [] }⟩
  | nextMember (member : ChordMember) (made rest : List ChordMember) (state : Inlining) :
      Makes around ⟨.members made (member :: rest), state⟩
        ⟨.members (placeMember around (unfoldAll around) (made, state) member).1 rest,
          (placeMember around (unfoldAll around) (made, state) member).2⟩
  | argument (argument : Expression) (rest : List Expression) (state : Inlining) :
      Makes around ⟨.arguments (argument :: rest), state⟩
        ⟨.expression argument, { state with emitted := [] }⟩
  | nextArgument (argument : Expression) (rest : List Expression) (state : Inlining) :
      Makes around ⟨.arguments (argument :: rest), state⟩
        ⟨.arguments rest,
          { place around (unfoldAll around) argument { state with emitted := [] } with
            emitted := state.emitted }⟩
  | arguments {name : String} {arguments : List Expression} {token : Token} {state : Inlining}
      {definition : Macro}
      (accepted : callee around state.active name arguments.length token = .ok definition) :
      Makes around ⟨.expression (.call name arguments token), state⟩ ⟨.arguments arguments, state⟩
  | reference {name : String} {token : Token} {state : Inlining} {definition : Macro}
      (accepted : callee around state.active name 0 token = .ok definition)
      (lasting : state.exhausted = false) :
      Makes around ⟨.expression (.reference name token), state⟩ ⟨.body definition [], state⟩
  | call {name : String} {arguments : List Expression} {token : Token} {state : Inlining}
      {definition : Macro}
      (accepted : callee around state.active name arguments.length token = .ok definition)
      (lasting :
        (placeArguments around (unfoldAll around) arguments state).2.exhausted = false) :
      Makes around ⟨.expression (.call name arguments token), state⟩
        ⟨.body definition (placeArguments around (unfoldAll around) arguments state).1,
          (placeArguments around (unfoldAll around) arguments state).2⟩
  | body (definition : Macro) (arguments : List Expression) (state : Inlining) :
      Makes around ⟨.body definition arguments, state⟩
        ⟨.list (substituteAll (definition.parameters.zip arguments) definition.body),
          entering definition arguments state⟩

/-! ### Stacks -/

/-- The stack of a call is one of distinct macros, and a macro that is entered is none of
them. -/
structure Sound (around : Surroundings) (call : Call) : Prop where
  stacked : Stacked around call.state.active
  allowed : call.work.Allowed around call.state.active

section Steps

variable {around : Surroundings} {call inner : Call}

/-- A call leaves the stack as it found it. -/
theorem Sound.active_finish (sound : Sound around call) :
    (call.finish around).active = call.state.active := by
  have unfolds := unfoldTo_course around around.macros.length
  obtain ⟨work, state⟩ := call
  cases work with
  | expression expression => exact (place_course unfolds expression state).active_eq
  | list list => exact (placeAll_course unfolds list state).active_eq
  | arguments arguments => exact (placeArguments_course unfolds arguments state).active_eq
  | members made members => exact (placeMembers_course unfolds members (made, state)).active_eq
  | body definition arguments =>
      obtain ⟨member, fresh⟩ := sound.allowed
      exact (unfolds definition arguments state member fresh).active_eq

/-- A call with the stack of a sound one is sound, if it enters no macro. -/
theorem Sound.of_active_eq (sound : Sound around call) (same : inner.state.active = call.state.active)
    (allowed : inner.work.Allowed around call.state.active) : Sound around inner :=
  ⟨same ▸ sound.stacked, same ▸ allowed⟩

/-- A macro that is accepted can be entered. -/
theorem allowed_of_callee {active : List String} {name : String} {given : Nat} {token : Token}
    {definition : Macro} (accepted : callee around active name given token = .ok definition)
    (arguments : List Expression) : (Work.body definition arguments).Allowed around active := by
  obtain ⟨found, fresh, _⟩ := callee_eq_ok_iff.mp accepted
  exact ⟨Surroundings.mem_of_macro? found, fresh⟩

/-- Sound calls make sound calls. -/
theorem Makes.sound (makes : Makes around call inner) (sound : Sound around call) :
    Sound around inner := by
  have unfolds := unfoldTo_course around around.macros.length
  cases makes with
  | rest lasting => exact sound.of_active_eq (place_course unfolds _ _).active_eq trivial
  | nextMember member made rest state =>
      exact sound.of_active_eq (placeMember_course unfolds (made, state) member).active_eq trivial
  | nextArgument argument rest state =>
      have still := (place_course unfolds argument { state with emitted := [] }).active_eq
      exact sound.of_active_eq still trivial
  | reference accepted lasting => exact sound.of_active_eq rfl (allowed_of_callee accepted [])
  | call accepted lasting =>
      exact sound.of_active_eq (placeArguments_course unfolds _ _).active_eq
        (allowed_of_callee accepted _)
  | body definition arguments state =>
      obtain ⟨member, fresh⟩ := sound.allowed
      have pushed := sound.stacked.push member fresh
      rw [← active_entering definition arguments state] at pushed
      exact ⟨pushed, trivial⟩
  | _ => exact sound.of_active_eq rfl trivial

theorem Sound.of_reached (sound : Sound around call)
    (reached : Relation.ReflTransGen (Makes around) call inner) : Sound around inner := by
  induction reached with
  | refl => exact sound
  | tail _ makes inductionHypothesis => exact makes.sound inductionHypothesis

/-! ### Calls end -/

/-- How many names can still be entered, and what is left to do before one is. -/
noncomputable def rank (around : Surroundings) (call : Call) : Nat × Nat :=
  (around.macroNames.length - call.state.active.length, call.work.size)

/-- The order of ranks. -/
abbrev RankLess : Nat × Nat → Nat × Nat → Prop := Prod.Lex (· < ·) (· < ·)

/-- A call on the same stack has less left to do. -/
theorem rankLess_of_active_eq (same : inner.state.active = call.state.active)
    (smaller : inner.work.size < call.work.size) :
    RankLess (rank around inner) (rank around call) := by
  unfold rank
  rw [same]
  exact .right _ smaller

theorem Makes.rankLess (makes : Makes around call inner) (sound : Sound around call) :
    RankLess (rank around inner) (rank around call) := by
  have unfolds := unfoldTo_course around around.macros.length
  cases makes with
  | rest lasting =>
      apply rankLess_of_active_eq (place_course unfolds _ _).active_eq
      simp only [Work.size, List.cons.sizeOf_spec]
      omega
  | nextMember member made rest state =>
      apply rankLess_of_active_eq (placeMember_course unfolds (made, state) member).active_eq
      simp only [Work.size, List.cons.sizeOf_spec]
      omega
  | nextArgument argument rest state =>
      apply rankLess_of_active_eq (place_course unfolds argument { state with emitted := [] }).active_eq
      simp only [Work.size, List.cons.sizeOf_spec]
      omega
  | call accepted lasting =>
      apply rankLess_of_active_eq (placeArguments_course unfolds _ _).active_eq
      simp only [Work.size, Expression.call.sizeOf_spec]
      omega
  | body definition arguments state =>
      obtain ⟨member, fresh⟩ := sound.allowed
      have room := sound.stacked.length_lt member fresh
      unfold rank
      dsimp only at room ⊢
      rw [active_entering, List.length_cons]
      exact .left _ _ (by omega)
  | _ =>
      refine rankLess_of_active_eq rfl ?_
      simp only [Work.size, List.cons.sizeOf_spec, ChordMember.reference.sizeOf_spec,
        Expression.reference.sizeOf_spec, Expression.call.sizeOf_spec, Expression.chord.sizeOf_spec,
        Expression.group.sizeOf_spec, Expression.hold.sizeOf_spec]
      omega

/-- No chain of calls goes on without end. -/
theorem Sound.ends (sound : Sound around call) :
    Acc (fun inner outer => Makes around outer inner) call := by
  have wellFounded : WellFounded (InvImage RankLess (rank around)) :=
    InvImage.wf _ (Prod.lex Nat.lt_wfRel Nat.lt_wfRel).wf
  induction call using wellFounded.induction with
  | h call inductionHypothesis =>
      refine Acc.intro call fun inner makes => ?_
      exact inductionHypothesis inner (makes.rankLess sound) (makes.sound sound)

end Steps

end Call

/-- With as many levels as there are macros, the body of a macro is inlined as if there were
no bound on them: anything in it is inlined in the same way. -/
theorem unfoldAll_eq {around : Surroundings} {definition : Macro} {state : Inlining}
    (stacked : Stacked around state.active) (member : definition ∈ around.macros)
    (fresh : definition.name ∉ state.active) (arguments : List Expression) :
    unfoldAll around definition arguments state =
      leaving (placeAll around (unfoldAll around)
        (substituteAll (definition.parameters.zip arguments) definition.body)
        (entering definition arguments state)) := by
  have enough := around.length_macroNames_le
  have room : around.macroNames.length ≤ around.macros.length + state.active.length := by omega
  have moreRoom : around.macroNames.length ≤ around.macros.length + 1 + state.active.length := by
    omega
  exact agreeInside_unfoldTo stacked room moreRoom definition arguments state member fresh rfl

/-! ### Main result -/

/-- **Inlining ends.** A movement is inlined by calls of which no chain goes on without end,
whatever the names of the score stand for, in whatever state the movements before it left, and
under every limit. In each call the macros that are being inlined have distinct names, each of
them that of a macro, so they are no more than there are such names. And each call leaves them
as it found them, however it ends. A macro that is entered is on the stack in which the call on
its body begins, so these calls are all the moments at which the stack can be seen. The bound on
the number of levels plays no part in this: the body of a macro is inlined as it would be
without one, and every number that is enough for the names gives the same. -/
theorem inlining_ends (score : Score) (limit : Nat) (movement : Movement) (earlier : Inlining) :
    let around := score.around limit movement
    let names := (score.macros.map Macro.name).dedup
    let begun : Call := ⟨.list movement.expressions, earlier.renewed⟩
    (movement.inlineNext score limit).run earlier =
        ({ movement with expressions := (begun.finish around).emitted.reverse },
          begun.finish around) ∧
      Acc (fun inner outer => Call.Makes around outer inner) begun ∧
      (∀ level, names.length ≤ level →
        placeAll around (unfoldTo around level) movement.expressions earlier.renewed =
          begun.finish around) ∧
      ∀ call, Relation.ReflTransGen (Call.Makes around) begun call →
        call.state.active.Nodup ∧
        (∀ name ∈ call.state.active, ∃ definition ∈ score.macros, definition.name = name) ∧
        call.state.active.length ≤ names.length ∧
        (call.finish around).active = call.state.active ∧
        ∀ definition arguments, call.work = .body definition arguments →
          call.finish around = leaving (Call.finish around
            ⟨.list (substituteAll (definition.parameters.zip arguments) definition.body),
              entering definition arguments call.state⟩) := by
  intro around names begun
  have sound : begun.Sound around := ⟨.nil around, trivial⟩
  refine ⟨rfl, sound.ends, fun level enough => ?_, fun call reached => ?_⟩
  · exact next_eq_of_levels around movement.expressions earlier enough
  · have soundHere := sound.of_reached reached
    refine ⟨soundHere.stacked.distinct, soundHere.stacked.known, soundHere.stacked.length_le,
      soundHere.active_finish, fun definition arguments isBody => ?_⟩
    obtain ⟨work, state⟩ := call
    obtain rfl : work = .body definition arguments := isBody
    obtain ⟨member, fresh⟩ := soundHere.allowed
    exact unfoldAll_eq soundHere.stacked member fresh arguments

end Inlining

/-! ### An example -/

namespace Detour

/-- The token of everything in this score. -/
def token : Token := ⟨"x", .word, ⟨1, 1⟩⟩

/-- A movement that consists of the names `k` and `x`. -/
def movement : Movement :=
  ⟨"piano", none, [.reference "k" token, .reference "x" token], token⟩

/-- The macros `m = k` and `n = m` in a score where `k` stands for the second of them, and `x`
for a macro that is not there. -/
def score : Score where
  metadata := []
  macros := [⟨"m", [], [.reference "k" token], token⟩, ⟨"n", [], [.reference "m" token], token⟩]
  tracks := [⟨"global", [movement]⟩]
  names := ⟨[("k", .macroAt 2), ("m", .macroAt 1), ("x", .macroAt 7)]⟩
  diagnostics := []

/-- What inlining the movement depends on. -/
def around : Surroundings := score.around 4 movement

open Inlining

/-- The name `k` within `m` within `n`. -/
theorem reached_twice_entered :
    ∃ call : Call, Relation.ReflTransGen (Call.Makes around)
      ⟨.list movement.expressions, start.renewed⟩ call ∧
        call.state.active = ["m", "n"] ∧ call.work = .expression (.reference "k" token) := by
  refine ⟨_, .tail (.tail (.tail (.tail (.tail (.tail (.tail .refl (.first rfl))
    (.reference rfl rfl)) (.body _ _ _)) (.first rfl)) (.reference rfl rfl)) (.body _ _ _))
    (.first rfl), rfl, rfl⟩

end Detour

/-- The macros of this score are inlined inside each other once, and then the first one would
be entered again. -/
theorem Inlining.inlining_ends_detour :
    Acc (fun inner outer => Call.Makes Detour.around outer inner)
        ⟨.list Detour.movement.expressions, start.renewed⟩ ∧
      placeAll Detour.around (unfoldTo Detour.around 5) Detour.movement.expressions
          start.renewed =
        Call.finish Detour.around ⟨.list Detour.movement.expressions, start.renewed⟩ ∧
      ∃ call : Call, Relation.ReflTransGen (Call.Makes Detour.around)
        ⟨.list Detour.movement.expressions, start.renewed⟩ call ∧
          call.state.active = ["m", "n"] ∧
          (call.finish Detour.around).active = ["m", "n"] ∧
          ["m", "n"].length ≤ (Detour.score.macros.map Macro.name).dedup.length ∧
          call.work = .expression (.reference "k" Detour.token) := by
  obtain ⟨_, ends, levels, each⟩ := inlining_ends Detour.score 4 Detour.movement start
  obtain ⟨call, reached, isStack, isWork⟩ := Detour.reached_twice_entered
  obtain ⟨_, _, few, left, _⟩ := each call reached
  rw [isStack] at few left
  exact ⟨ends, levels 5 (by decide), call, reached, isStack, left, few, isWork⟩

end Solfege
