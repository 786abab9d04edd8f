import Solfege.Score.Basic

/-!
Contract: a score grows by one definition after another.

Owns:
- adding metadata, tracks, macros and movements to a score;
- giving each definition its name, where the first one of a name keeps it;
- the problems of definitions that repeat a name, and of movements without a track.

Does not own: how definitions are read. A definition whose name is taken is still
stored; a movement without a track is not.
-/

namespace Solfege.Score

open NameTable (Entry)

def empty : Score := ⟨[], [], [], NameTable.empty, []⟩

def addMetadata (score : Score) (entry : Metadata) : Score :=
  { score with metadata := score.metadata ++ [entry] }

/-- Opens a track, which later movements belong to. -/
def addTrack (score : Score) (name : String) : Score :=
  { score with tracks := score.tracks ++ [⟨name, []⟩] }

/-- The line on which the definition at an entry stands. -/
def lineOf? (score : Score) : Entry → Option Nat
  | .macroAt index =>
      (macroAt? score.macros index).map fun definition => definition.token.position.line
  | .movementAt track movement => do
      let found ← score.tracks[track - 1]?
      let definition ← found.movements[movement - 1]?
      some definition.token.position.line

/-- Adds a macro. The problem, if there is one, is that its name was taken. -/
def addMacro (score : Score) (definition : Macro) : Score × Option Diagnostic :=
  let extended := { score with macros := score.macros ++ [definition] }
  match score.names.define definition.name (.macroAt (score.macros.length + 1)) with
  | .ok names => ({ extended with names := names }, none)
  | .error existing =>
      (extended, some (Diagnostic.namingAt definition.token
        (.repeatedMacro definition.name (score.lineOf? existing))))

/-- Names a movement that is to be the next one of a track, unless its key occurs in the
track or names a macro. Movements of other tracks may share the key. -/
def nameMovement (score : Score) (track : Track) (movement : Movement) :
    NameTable × Option Diagnostic :=
  match track.movements.find? fun earlier => earlier.key = movement.key with
  | some earlier =>
      (score.names, some (Diagnostic.namingAt movement.token
        (.repeatedMovement movement.key track.name earlier.token.position.line)))
  | none =>
      let entry := Entry.movementAt score.tracks.length (track.movements.length + 1)
      match score.names.define movement.key entry with
      | .ok names => (names, none)
      | .error (.movementAt _ _) => (score.names, none)
      | .error (.macroAt index) =>
          (score.names, some (Diagnostic.namingAt movement.token
            (.movementNamedLikeMacro movement.key (score.lineOf? (.macroAt index)))))

/-- Adds a movement to the track opened last. -/
def addMovement (score : Score) (movement : Movement) : Score × Option Diagnostic :=
  match score.tracks.getLast? with
  | none =>
      (score, some (Diagnostic.syntaxAt movement.token (.movementBeforeTrack movement.key)))
  | some track =>
      let (names, problem) := score.nameMovement track movement
      ({ score with
          tracks := score.tracks.dropLast ++ [track.add movement]
          names := names }, problem)

/-! ### What a definition is added to -/

theorem macros_addMacro (score : Score) (added : Macro) :
    (score.addMacro added).1.macros = score.macros ++ [added] := by
  unfold addMacro
  dsimp only
  split <;> rfl

theorem metadata_addMacro (score : Score) (added : Macro) :
    (score.addMacro added).1.metadata = score.metadata := by
  unfold addMacro
  dsimp only
  split <;> rfl

theorem tracks_addMacro (score : Score) (added : Macro) :
    (score.addMacro added).1.tracks = score.tracks := by
  unfold addMacro
  dsimp only
  split <;> rfl

theorem metadata_addMovement (score : Score) (added : Movement) :
    (score.addMovement added).1.metadata = score.metadata := by
  unfold addMovement
  split <;> rfl

theorem macros_addMovement (score : Score) (added : Movement) :
    (score.addMovement added).1.macros = score.macros := by
  unfold addMovement
  split <;> rfl

/-- The movement joins the track that was opened last. -/
theorem tracks_addMovement {score : Score} {track : Track} {earlier : List Track}
    (opened : score.tracks = earlier ++ [track]) (added : Movement) :
    (score.addMovement added).1.tracks = earlier ++ [track.add added] := by
  unfold addMovement
  rw [opened, List.getLast?_concat, List.dropLast_concat]

theorem addMovement_of_tracks_nil {score : Score} (unopened : score.tracks = [])
    (added : Movement) : (score.addMovement added).1 = score := by
  unfold addMovement
  rw [unopened]
  rfl

theorem mem_movements_addMovement {score : Score} {added movement : Movement}
    (member : movement ∈ (score.addMovement added).1.movements) :
    movement ∈ score.movements ∨ movement = added := by
  rcases List.eq_nil_or_concat score.tracks with unopened | ⟨earlier, track, opened⟩
  · rw [addMovement_of_tracks_nil unopened] at member
    exact .inl member
  · rw [List.concat_eq_append] at opened
    unfold movements at member ⊢
    rw [tracks_addMovement opened] at member
    rw [opened]
    simp only [Track.add, List.flatMap_append, List.flatMap_singleton, List.mem_append,
      List.mem_singleton] at member ⊢
    rw [or_assoc]
    exact member

end Solfege.Score
