import Solfege.Expansion.Group
import Solfege.Expansion.Inlining
import Solfege.Expansion.Repetition

/-!
Contract: whole scores expanded, in three passes.

Owns:
- each pass over the bodies that it concerns: repetitions and groups in macros and
  movements, macros in movements only;
- the state that the inlining of one movement hands on to the next;
- the problems of a pass, in the order of the bodies;
- the sequence of the passes, which ends with the first that has problems.

Does not own: what a pass does to one list. A pass changes the lists of expressions and
nothing else, and it keeps what it made also when it has problems.
-/

namespace Solfege

/-! ### Changes one by one -/

/-- Changes things one by one, where each change may have problems. -/
def changeAll {α : Type} (change : α → α × List Diagnostic) (things : List α) :
    List α × List Diagnostic :=
  let changed := things.map change
  (changed.map Prod.fst, changed.flatMap Prod.snd)

theorem changeAll_fst {α : Type} (change : α → α × List Diagnostic) (things : List α) :
    (changeAll change things).1 = things.map fun thing => (change thing).1 := by
  simp [changeAll]

/-- A change that treats other things as the first does these treats all of them so. -/
theorem changeAll_map_of_eq {α : Type} {change other : α → α × List Diagnostic} {f : α → α}
    (same : ∀ thing, other (f thing) = change thing) (things : List α) :
    changeAll other (things.map f) = changeAll change things := by
  simp [changeAll, Function.comp_def, same, List.flatMap_map]

theorem changeAll_snd_cons {α : Type} (change : α → α × List Diagnostic) (thing : α)
    (rest : List α) :
    (changeAll change (thing :: rest)).2 = (change thing).2 ++ (changeAll change rest).2 := by
  simp [changeAll]

theorem changeAll_snd_eq_nil_iff {α : Type} {change : α → α × List Diagnostic}
    {things : List α} :
    (changeAll change things).2 = [] ↔ ∀ thing ∈ things, (change thing).2 = [] := by
  simp [changeAll]

/-- Another change that does the same wherever the first has no problems does the same
throughout, if the first has none. -/
theorem changeAll_eq_of_silent {α : Type} {change other : α → α × List Diagnostic}
    {things : List α}
    (same : ∀ thing ∈ things, (change thing).2 = [] → other thing = change thing)
    (silent : (changeAll change things).2 = []) :
    changeAll other things = changeAll change things := by
  have everywhere : ∀ thing ∈ things, other thing = change thing :=
    fun thing member => same thing member (changeAll_snd_eq_nil_iff.mp silent thing member)
  unfold changeAll
  rw [List.map_congr_left everywhere]

/-! ### Repetitions -/

def Macro.unroll (limit : Nat) (definition : Macro) : Macro × List Diagnostic :=
  let (body, problems) := Expression.unroll limit definition.body
  ({ definition with body := body }, problems)

def Movement.unroll (limit : Nat) (movement : Movement) : Movement × List Diagnostic :=
  let (expressions, problems) := Expression.unroll limit movement.expressions
  ({ movement with expressions := expressions }, problems)

def Track.unroll (limit : Nat) (track : Track) : Track × List Diagnostic :=
  let (movements, problems) := changeAll (Movement.unroll limit) track.movements
  ({ track with movements := movements }, problems)

def Score.unroll (limit : Nat) (score : Score) : Score × List Diagnostic :=
  let (macros, macroProblems) := changeAll (Macro.unroll limit) score.macros
  let (tracks, trackProblems) := changeAll (Track.unroll limit) score.tracks
  ({ score with macros := macros, tracks := tracks }, macroProblems ++ trackProblems)

theorem Track.unroll_movements (limit : Nat) (track : Track) :
    (track.unroll limit).1.movements =
      track.movements.map fun movement => (movement.unroll limit).1 :=
  changeAll_fst _ _

theorem Score.unroll_macros (limit : Nat) (score : Score) :
    (score.unroll limit).1.macros =
      score.macros.map fun definition => (definition.unroll limit).1 :=
  changeAll_fst _ _

theorem Score.unroll_tracks (limit : Nat) (score : Score) :
    (score.unroll limit).1.tracks = score.tracks.map fun track => (track.unroll limit).1 :=
  changeAll_fst _ _

theorem Score.unroll_movements (limit : Nat) (score : Score) :
    (score.unroll limit).1.movements =
      score.movements.map fun movement => (movement.unroll limit).1 := by
  unfold movements
  simp only [unroll_tracks, List.map_flatMap, List.flatMap_map, Track.unroll_movements]

/-! ### Groups -/

def Macro.flatten (definition : Macro) : Macro :=
  { definition with body := Expression.flatten definition.body }

def Movement.flatten (movement : Movement) : Movement :=
  { movement with expressions := Expression.flatten movement.expressions }

def Track.flatten (track : Track) : Track :=
  { track with movements := track.movements.map Movement.flatten }

def Score.flatten (score : Score) : Score :=
  { score with
    macros := score.macros.map Macro.flatten
    tracks := score.tracks.map Track.flatten }

theorem Score.flatten_movements (score : Score) :
    score.flatten.movements = score.movements.map Movement.flatten := by
  unfold movements flatten
  dsimp only
  rw [List.map_flatMap, List.flatMap_map]
  rfl

/-! ### Macros -/

/-- What inlining a movement of a score depends on. -/
def Score.around (score : Score) (limit : Nat) (movement : Movement) : Surroundings :=
  ⟨score.macros, score.names, limit, movement.token⟩

/-- Inlines the macros of a movement in the state that the movements before it left. -/
def Movement.inlineNext (score : Score) (limit : Nat) (movement : Movement) :
    StateM Inlining Movement := fun state =>
  let inlined := state.next (score.around limit movement) movement.expressions
  ({ movement with expressions := inlined.emitted.reverse }, inlined)

def Track.inlineNext (score : Score) (limit : Nat) (track : Track) :
    StateM Inlining Track := do
  let movements ← track.movements.mapM (Movement.inlineNext score limit)
  pure { track with movements := movements }

/-- Inlines the macros of all movements, one after the other in one state. A problem that
several movements have is reported where it is met first. -/
def Score.inlineMacros (limit : Nat) (score : Score) : Score × List Diagnostic :=
  let (tracks, final) := (score.tracks.mapM (Track.inlineNext score limit)).run .start
  ({ score with tracks := tracks }, final.problems)

/-! ### All passes -/

/-- The budget of a movement and the limit of a list, where nothing else is set. -/
def Score.defaultLimit : Nat := 100000

/-- Expands a score: repetitions, then groups, then macros. -/
def Score.expand (limit : Nat) (score : Score) : Score × List Diagnostic :=
  let (unrolled, problems) := score.unroll limit
  if problems.isEmpty then
    unrolled.flatten.inlineMacros limit
  else
    (unrolled, problems)

theorem Score.expand_of_silent {limit : Nat} {score : Score}
    (silent : (score.unroll limit).2 = []) :
    score.expand limit = (score.unroll limit).1.flatten.inlineMacros limit := by
  unfold expand
  dsimp only
  rw [if_pos (List.isEmpty_iff.mpr silent)]

theorem Score.unroll_silent_of_expand {limit : Nat} {score : Score}
    (silent : (score.expand limit).2 = []) : (score.unroll limit).2 = [] := by
  unfold expand at silent
  dsimp only at silent
  by_cases unrolled : (score.unroll limit).2 = []
  · exact unrolled
  · rw [if_neg (mt List.isEmpty_iff.mp unrolled)] at silent
    exact silent

end Solfege
