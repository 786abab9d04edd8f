import Solfege.Proofs.Inlining.Turn

/-!
Contract: expansion leaves the outline of a score alone.

Owns:
- the outline of a score: its tracks in order, each with the headings of its movements;
- the proof for each pass, and for all of them, that the outline stays as it was.

Does not own: what becomes of the expressions of a movement.
-/

namespace Solfege

/-- What a movement is called: its instrument, its tag and the token of its name. -/
structure Heading where
  instrument : String
  tag : Option String
  token : Token
deriving DecidableEq, Repr

/-- The heading of a movement. -/
def Movement.heading (movement : Movement) : Heading :=
  ⟨movement.instrument, movement.tag, movement.token⟩

/-- The name of a track and the headings of its movements. -/
def Track.outline (track : Track) : String × List Heading :=
  (track.name, track.movements.map Movement.heading)

/-- The outlines of the tracks of a score. -/
def Score.outline (score : Score) : List (String × List Heading) :=
  score.tracks.map Track.outline

namespace Score

/-- Tracks that keep their outlines, one by one, keep the outline of the score. -/
theorem outline_eq_of_tracks {before after : Score} {change : Track → Track}
    (tracks : after.tracks = before.tracks.map change)
    (names : ∀ track, (change track).name = track.name)
    (headings : ∀ track, (change track).movements.map Movement.heading =
      track.movements.map Movement.heading) : after.outline = before.outline := by
  unfold outline
  rw [tracks, List.map_map]
  refine List.map_congr_left fun track _ => ?_
  change Track.outline (change track) = Track.outline track
  unfold Track.outline
  rw [names, headings]

theorem outline_unroll (limit : Nat) (score : Score) :
    (score.unroll limit).1.outline = score.outline := by
  refine outline_eq_of_tracks (score.unroll_tracks limit) (fun _ => rfl) fun track => ?_
  rw [Track.unroll_movements, List.map_map]
  rfl

theorem outline_flatten (score : Score) : score.flatten.outline = score.outline := by
  have tracks : score.flatten.tracks = score.tracks.map Track.flatten := rfl
  exact outline_eq_of_tracks tracks (fun _ => rfl) fun _ => List.map_map

theorem outline_inlineMacros (limit : Nat) (score : Score) :
    (score.inlineMacros limit).1.outline = score.outline := by
  refine outline_eq_of_tracks (score.inlineMacros_tracks limit)
    (fun track => track.inlineMacros_name score limit) fun track => ?_
  rw [Track.inlineMacros_movements, List.map_map]
  rfl

/-- Expansion keeps the tracks and the headings of movements, with problems or without. -/
theorem outline_expand (limit : Nat) (score : Score) :
    (score.expand limit).1.outline = score.outline := by
  unfold expand
  dsimp only
  split
  · rw [outline_inlineMacros, outline_flatten, outline_unroll]
  · exact outline_unroll limit score

theorem diagnostics_expand (limit : Nat) (score : Score) :
    (score.expand limit).1.diagnostics = score.diagnostics := by
  unfold expand
  dsimp only
  split <;> rfl

end Score

end Solfege
