import Solfege.Expansion.Substitution

/-!
Contract: macros inlined into a movement, under a budget.

Owns:
- what a name or call refers to, and why it may refer to nothing;
- the state of an inlining: what was emitted, the budget spent, the macros being inlined
  and the problems met;
- the inlining of each sort of expression;
- the state in which a movement is begun, behind others or by itself.

Does not own: the movements of a score, or the expansion of repetitions and groups that
usually comes first.

Arguments are inlined where they are written, before they enter the body of the macro,
so that no name in them can be taken for a parameter. A macro is inlined only while it
is not being inlined already, so at most as many inlinings nest as there are macros, and
this number bounds the recursion.
-/

namespace Solfege

/-- What inlining a movement depends on. -/
structure Surroundings where
  macros : List Macro
  names : NameTable
  /-- The budget: what a movement may cost at most. -/
  limit : Nat
  /-- The token at which a spent budget is reported. -/
  site : Token

/-- A movement on its way to one without names and calls. -/
structure Inlining where
  /-- The expressions emitted so far, the latest first. -/
  emitted : List Expression
  /-- The cost of everything emitted so far, parts of arguments and chords included. -/
  spent : Nat
  /-- Whether the budget was not enough. Nothing is emitted any more. -/
  exhausted : Bool
  /-- The names of the macros being inlined, the innermost first. -/
  active : List String
  /-- The problems met, each of them once. -/
  problems : List Diagnostic
  /-- The number of problems met, repeated ones included. -/
  failures : Nat

namespace Inlining

def start : Inlining := ⟨[], 0, false, [], [], 0⟩

/-! ### Problems and emission -/

def fail (state : Inlining) (diagnostic : Diagnostic) : Inlining :=
  { state with
    problems :=
      if state.problems.contains diagnostic then
        state.problems
      else
        state.problems ++ [diagnostic]
    failures := state.failures + 1 }

/-- What emitting an expression costs: as much as a chord has notes, else one. -/
def cost : Expression → Nat
  | .chord members _ => members.length
  | .hold (.chord members _) _ => members.length
  | _ => 1

/-- Emits an expression, if the budget allows it. The first time that it does not is a
problem of the movement. -/
def emit (around : Surroundings) (expression : Expression) (state : Inlining) : Inlining :=
  if state.exhausted then
    state
  else
    let spent := state.spent + cost expression
    if around.limit < spent then
      { state with spent := spent, exhausted := true }.fail
        (Diagnostic.expansionAt around.site (.movementTooLarge around.limit))
    else
      { state with spent := spent, emitted := expression :: state.emitted }

/-! ### References -/

/-- The macro that a name refers to at a token. -/
def macroNamed (around : Surroundings) (name : String) (token : Token) :
    Except Diagnostic Macro :=
  match around.names.get? name with
  | some (.macroAt index) =>
      match Score.macroAt? around.macros index with
      | some definition => .ok definition
      | none => .error (Diagnostic.internalAt token (.missingMacro name index))
  | some (.movementAt _ _) => .error (Diagnostic.expansionAt token (.movementAsMacro name))
  | none => .error (Diagnostic.expansionAt token (.unknownName name))

/-- The macros from one being inlined inwards, and that one again. -/
def chain (active : List String) (name : String) : List String :=
  name :: (active.takeWhile fun other => other ≠ name).reverse ++ [name]

/-- The macro that a use with a number of arguments inlines: one that is not being
inlined already and takes as many. -/
def callee (around : Surroundings) (active : List String) (name : String) (given : Nat)
    (token : Token) : Except Diagnostic Macro :=
  match macroNamed around name token with
  | .error diagnostic => .error diagnostic
  | .ok definition =>
      if active.contains definition.name then
        .error (Diagnostic.expansionAt token
          (.selfReference definition.name (chain active definition.name)))
      else if given ≠ definition.parameters.length then
        .error (Diagnostic.expansionAt token
          (.argumentCount definition.name definition.parameters.length given))
      else
        .ok definition

/-! ### Parts -/

/-- What an argument became, given latest first, as one expression. -/
def gather (emitted : List Expression) (token : Token) : Expression :=
  match emitted with
  | [single] => single
  | several => .group several.reverse token

/-- The members that a chord gains from what a name in it became: those of its notes and
chords up to the first other expression, and whether there is one. -/
def membersFrom (members : List ChordMember) : List Expression → List ChordMember × Bool
  | [] => (members, true)
  | .note written :: rest => membersFrom (.note written :: members) rest
  | .chord more _ :: rest => membersFrom (more.reverse ++ members) rest
  | _ :: _ => (members, false)

/-- Ends a hold around what its inside became, given latest first. -/
def closeHold (around : Surroundings) (emitted : List Expression) (token : Token)
    (state : Inlining) : Inlining :=
  match emitted with
  | [.note written] => state.emit around (.hold (.note written) token)
  | [.chord members place] => state.emit around (.hold (.chord members place) token)
  | _ => state.fail (Diagnostic.expansionAt token .unholdableExpansion)

/-- How the body of a macro is inlined with its arguments. -/
abbrev Unfolding := Macro → List Expression → Inlining → Inlining

def placeName (around : Surroundings) (unfolding : Unfolding) (name : String)
    (token : Token) (state : Inlining) : Inlining :=
  match callee around state.active name 0 token with
  | .error diagnostic => state.fail diagnostic
  | .ok definition => if state.exhausted then state else unfolding definition [] state

/-- Inlines a member of a chord into its members so far, given latest first. -/
def placeMember (around : Surroundings) (unfolding : Unfolding)
    (progress : List ChordMember × Inlining) : ChordMember → List ChordMember × Inlining
  | .note written => (.note written :: progress.1, progress.2)
  | .reference name token =>
      let state := progress.2
      let inside := placeName around unfolding name token { state with emitted := [] }
      let after := { inside with emitted := state.emitted }
      match membersFrom progress.1 inside.emitted.reverse with
      | (members, true) => (members, after)
      | (members, false) =>
          (members, after.fail (Diagnostic.expansionAt token (.memberNotNotes name)))

/-! ### Expressions -/

mutual

/-- Inlines everything in an expression and emits what it becomes. -/
def place (around : Surroundings) (unfolding : Unfolding) :
    Expression → Inlining → Inlining
  | .reference name token, state => placeName around unfolding name token state
  | .call name arguments token, state =>
      match callee around state.active name arguments.length token with
      | .error diagnostic => state.fail diagnostic
      | .ok definition =>
          let (resolved, after) := placeArguments around unfolding arguments state
          if after.exhausted then after else unfolding definition resolved after
  | .group items _, state => placeAll around unfolding items state
  | .chord members token, state =>
      let (placed, after) := members.foldl (placeMember around unfolding) ([], state)
      after.emit around (.chord placed.reverse token)
  | .hold inner token, state =>
      let inside := place around unfolding inner { state with emitted := [] }
      let after := { inside with emitted := state.emitted }
      if state.failures < inside.failures || inside.exhausted then
        after
      else
        after.closeHold around inside.emitted token
  | .repetition count token, state =>
      state.fail (Diagnostic.expansionAt token (.repetitionLeft count))
  | terminal, state => state.emit around terminal

/-- Inlines a list while the budget lasts. -/
def placeAll (around : Surroundings) (unfolding : Unfolding) :
    List Expression → Inlining → Inlining
  | [], state => state
  | item :: rest, state =>
      if state.exhausted then
        state
      else
        placeAll around unfolding rest (place around unfolding item state)

/-- Inlines each argument of a call by itself. Each becomes one expression. -/
def placeArguments (around : Surroundings) (unfolding : Unfolding) :
    List Expression → Inlining → List Expression × Inlining
  | [], state => ([], state)
  | argument :: rest, state =>
      let inside := place around unfolding argument { state with emitted := [] }
      let resolved := gather inside.emitted argument.token
      let (others, after) :=
        placeArguments around unfolding rest { inside with emitted := state.emitted }
      (resolved :: others, after)

end

/-! ### Macros -/

/-- Inlines the body of a macro with its arguments in place, to at most a number of
levels. -/
def unfoldTo (around : Surroundings) : Nat → Unfolding
  | 0, _, _, state => state.fail (Diagnostic.internalAt around.site .stepBound)
  | level + 1, definition, arguments, state =>
      let bindings := definition.parameters.zip arguments
      let warned := (Expression.chordProblems bindings definition.body).foldl fail state
      let body := Expression.substituteAll bindings definition.body
      let entered := { warned with active := definition.name :: warned.active }
      let inside := placeAll around (unfoldTo around level) body entered
      { inside with active := inside.active.tail }

/-! ### Movements -/

/-- The state in which the next movement is begun: of those before it, only the problems
are known. -/
def renewed (state : Inlining) : Inlining :=
  { state with emitted := [], spent := 0, exhausted := false, active := [] }

/-- Inlines a list of expressions that stands in no macro, behind other movements. -/
def next (around : Surroundings) (list : List Expression) (state : Inlining) :
    Inlining :=
  placeAll around (unfoldTo around around.macros.length) list state.renewed

/-- Inlines a list of expressions that stands in no macro, by itself. -/
def ofList (around : Surroundings) (list : List Expression) : Inlining :=
  placeAll around (unfoldTo around around.macros.length) list start

end Inlining

end Solfege
