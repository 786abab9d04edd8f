import Solfege.Proofs.Names.Score
import Solfege.Proofs.Spelling.Basic

/-!
Contract: the statements of a score that can be written make that score again.

Owns:
- scores that are alike, which differ at most in their tokens, names and problems;
- statements that a score has no problem with;
- the keys of movements, which tell apart their instruments and tags;
- the proof that the statements of a score fill the empty score up to it, without a problem.

Does not own: how the statements are read.
-/

namespace Solfege

open Reading (Statement)

/-! ### Alike scores -/

theorem Track.erased_add (track : Track) (movement : Movement) :
    (track.add movement).erased = track.erased.add movement.erased := by
  unfold erased add
  dsimp only
  rw [List.map_append, List.map_singleton]

namespace Score

/-- The scores hold the same metadata, macros and tracks, but for the tokens. -/
structure Alike (score other : Score) : Prop where
  metadata : score.metadata = other.metadata
  macros : score.macros.map Macro.erased = other.macros.map Macro.erased
  tracks : score.tracks.map Track.erased = other.tracks.map Track.erased

variable {score other third : Score}

theorem Alike.refl (score : Score) : score.Alike score :=
  ⟨rfl, rfl, rfl⟩

theorem Alike.trans (first : score.Alike other) (second : other.Alike third) :
    score.Alike third :=
  ⟨first.metadata.trans second.metadata, first.macros.trans second.macros,
    first.tracks.trans second.tracks⟩

theorem Alike.names_eq (alike : score.Alike other) :
    score.macros.map Macro.name = other.macros.map Macro.name := by
  have same := congrArg (List.map Macro.name) alike.macros
  rw [List.map_map, List.map_map] at same
  exact same

theorem Alike.tracks_eq_nil (alike : score.Alike other) (unopened : other.tracks = []) :
    score.tracks = [] := by
  have same := alike.tracks
  rw [unopened] at same
  exact List.map_eq_nil_iff.mp same

/-- Where one score has opened a track last, the other has opened one like it. -/
theorem Alike.exists_opened (alike : score.Alike other) {track : Track} {earlier : List Track}
    (opened : other.tracks = earlier ++ [track]) :
    ∃ before here, score.tracks = before ++ [here] ∧
      before.map Track.erased = earlier.map Track.erased ∧ here.erased = track.erased := by
  have same := alike.tracks
  rw [opened, List.map_append, List.map_singleton] at same
  obtain ⟨before, last, whole, sameBefore, sameLast⟩ := List.map_eq_append_iff.mp same
  obtain ⟨here, rfl, sameHere⟩ := List.map_eq_singleton_iff.mp sameLast
  exact ⟨before, here, whole, sameBefore, sameHere⟩

/-- Adding the same to alike scores makes alike scores. -/
theorem Alike.extended (alike : score.Alike other) {read written : Statement}
    (same : read.Alike written) : (score.extended read).Alike (other.extended written) := by
  cases same with
  | metadata entry keyword other =>
      exact ⟨congrArg (· ++ [entry]) alike.metadata, alike.macros, alike.tracks⟩
  | track name =>
      refine ⟨alike.metadata, alike.macros, ?_⟩
      unfold Score.extended addTrack
      dsimp only
      rw [List.map_append, List.map_append, alike.tracks]
  | @definition read written same =>
      change Alike (score.addMacro read).1 (other.addMacro written).1
      refine ⟨?_, ?_, ?_⟩
      · rw [metadata_addMacro, metadata_addMacro, alike.metadata]
      · rw [macros_addMacro, macros_addMacro, List.map_append, List.map_append, alike.macros,
          List.map_singleton, List.map_singleton, same]
      · rw [tracks_addMacro, tracks_addMacro, alike.tracks]
  | @movement read written same =>
      change Alike (score.addMovement read).1 (other.addMovement written).1
      refine ⟨?_, ?_, ?_⟩
      · rw [metadata_addMovement, metadata_addMovement, alike.metadata]
      · rw [macros_addMovement, macros_addMovement, alike.macros]
      · rcases List.eq_nil_or_concat other.tracks with unopened | ⟨earlier, track, opened⟩
        · rw [addMovement_of_tracks_nil unopened,
            addMovement_of_tracks_nil (alike.tracks_eq_nil unopened), alike.tracks]
        · rw [List.concat_eq_append] at opened
          obtain ⟨before, here, openedHere, sameBefore, sameTrack⟩ := alike.exists_opened opened
          rw [tracks_addMovement opened, tracks_addMovement openedHere, List.map_append,
            List.map_append, sameBefore, List.map_singleton, List.map_singleton,
            Track.erased_add, Track.erased_add, sameTrack, same]

/-! ### Statements without a problem -/

/-- The problem of adding a statement to a score, if there is one. -/
def problem? (score : Score) : Statement → Option Diagnostic
  | .metadata _ _ => none
  | .track _ => none
  | .definition added => (score.addMacro added).2
  | .movement added => (score.addMovement added).2

/-- The statement fits behind those of the score: macros come before all tracks, movements
behind a track, and neither repeats a name where that is a problem. -/
def Welcomes (score : Score) : Statement → Prop
  | .metadata _ _ => True
  | .track _ => True
  | .definition added => score.tracks = [] ∧ added.name ∉ score.macros.map Macro.name
  | .movement added => added.key ∉ score.macros.map Macro.name ∧
      ∃ earlier track, score.tracks = earlier ++ [track] ∧
        added.key ∉ track.movements.map Movement.key

theorem Welcomes.of_alike {read written : Statement} (welcomes : other.Welcomes written)
    (alike : score.Alike other) (same : read.Alike written) : score.Welcomes read := by
  cases same with
  | metadata entry keyword other => trivial
  | track name => trivial
  | @definition read written same =>
      obtain ⟨unopened, fresh⟩ := welcomes
      have sameName : read.erased.name = written.erased.name := congrArg Macro.name same
      refine ⟨alike.tracks_eq_nil unopened, ?_⟩
      rw [alike.names_eq]
      exact fun member => fresh (sameName ▸ member)
  | @movement read written same =>
      obtain ⟨noMacro, earlier, track, opened, fresh⟩ := welcomes
      have sameKey : read.erased.key = written.erased.key := congrArg Movement.key same
      obtain ⟨before, here, openedHere, _, sameTrack⟩ := alike.exists_opened opened
      have sameKeys := congrArg (fun track => track.movements.map Movement.key) sameTrack
      unfold Track.erased at sameKeys
      dsimp only at sameKeys
      rw [List.map_map, List.map_map] at sameKeys
      refine ⟨?_, before, here, openedHere, ?_⟩
      · rw [alike.names_eq]
        exact fun member => noMacro (sameKey ▸ member)
      · exact fun member => fresh (sameKeys ▸ sameKey ▸ member)

theorem NamedBy.mem_names_of_macroAt {stored : List Stored} (named : score.NamedBy stored)
    {name : String} {index : Nat} (found : score.names.get? name = some (.macroAt index)) :
    name ∈ score.macros.map Macro.name := by
  obtain ⟨_, definition, at_, isNamed⟩ := named.defines found
  exact List.mem_map.mpr ⟨definition, List.mem_of_getElem? at_, isNamed⟩

theorem problem?_eq_none {stored : List Stored} (named : score.NamedBy stored)
    {statement : Statement} (welcomes : score.Welcomes statement) :
    score.problem? statement = none := by
  cases statement with
  | metadata entry keyword => rfl
  | track name => rfl
  | definition added =>
      obtain ⟨unopened, fresh⟩ := welcomes
      have free : score.names.get? added.name = none := by
        cases found : score.names.get? added.name with
        | none => rfl
        | some entry =>
            cases entry with
            | macroAt index => exact absurd (named.mem_names_of_macroAt found) fresh
            | movementAt number index =>
                obtain ⟨_, _, track, _, impossible, _⟩ := named.defines found
                rw [unopened] at impossible
                contradiction
      change (score.addMacro added).2 = none
      unfold addMacro NameTable.define
      rw [free]
  | movement added =>
      obtain ⟨noMacro, earlier, track, opened, fresh⟩ := welcomes
      have unlisted : (track.movements.find? fun other => other.key = added.key) = none := by
        rw [List.find?_eq_none]
        intro other member same
        exact fresh (List.mem_map.mpr ⟨other, member, by simpa using same⟩)
      change (score.addMovement added).2 = none
      unfold addMovement nameMovement NameTable.define
      rw [opened, List.getLast?_concat]
      dsimp only
      rw [unlisted]
      dsimp only
      cases found : score.names.get? added.key with
      | none => rfl
      | some entry =>
          cases entry with
          | macroAt index => exact absurd (named.mem_names_of_macroAt found) noMacro
          | movementAt number index => rfl

/-! ### Filling a score -/

/-- Each of the statements fits behind those before, and together they make a score that
is like the last one. -/
inductive Fills : Score → List Statement → Score → Prop where
  | nil {score final : Score} (alike : score.Alike final) : Fills score [] final
  | cons {score final : Score} {statement : Statement} {others : List Statement}
      (welcomes : score.Welcomes statement)
      (rest : Fills (score.extended statement) others final) :
      Fills score (statement :: others) final

namespace Fills

variable {statements more : List Statement} {final : Score}

theorem of_alike (fills : Fills other statements final) (alike : score.Alike other) :
    Fills score statements final := by
  induction fills generalizing score with
  | nil same => exact .nil (alike.trans same)
  | @cons _ _ statement _ welcomes _ inductionHypothesis =>
      have same := Statement.Alike.refl statement
      exact .cons (welcomes.of_alike alike same) (inductionHypothesis (alike.extended same))

theorem append (first : Fills score statements other) (second : Fills other more final) :
    Fills score (statements ++ more) final := by
  induction first with
  | nil alike => exact second.of_alike alike
  | cons welcomes _ inductionHypothesis => exact .cons welcomes (inductionHypothesis second)

end Fills

end Score

/-! ### Keys -/

theorem Lexeme.continuesWord_of_isWord {characters : List Char} (isWord : IsWord characters) :
    ∀ character ∈ characters, continuesWord character = true := by
  obtain ⟨first, rest, rfl, begins, continues⟩ := isWord
  refine List.forall_mem_cons.mpr ⟨?_, continues⟩
  unfold beginsWord at begins
  unfold continuesWord Char.isAlphanum
  rw [Bool.or_eq_true] at begins ⊢
  exact begins.imp_left fun letter => by rw [letter, Bool.true_or]

namespace Movement

/-- What a key shows of a tag. -/
def tagText : Option String → List Char
  | none => []
  | some tag => ' ' :: '"' :: (tag.toList ++ ['"'])

theorem toList_keyOf (instrument : String) (tag : Option String) :
    (keyOf instrument tag).toList = instrument.toList ++ tagText tag := by
  cases tag with
  | none => exact (List.append_nil _).symm
  | some tag => simp [keyOf, tagText, toString]

theorem stops_tagText (tag : Option String) :
    Lexeme.Stops Lexeme.continuesWord (tagText tag) := by
  intro first member
  cases tag with
  | none => contradiction
  | some tag =>
      rw [← Option.some.inj member]
      rfl

theorem tagText_injective {tag other : Option String} (same : tagText tag = tagText other) :
    tag = other := by
  cases tag with
  | none =>
      cases other with
      | none => rfl
      | some other => contradiction
  | some tag =>
      cases other with
      | none => contradiction
      | some other =>
          have inside := (List.cons.inj (List.cons.inj same).2).2
          exact congrArg some (String.toList_injective (List.append_cancel_right inside))

/-- No two movements whose instruments are names share a key, unless they share their
instrument and their tag. -/
theorem keyOf_injective {instrument other : String} (isName : IsName instrument)
    (otherIsName : IsName other) {tag otherTag : Option String}
    (same : keyOf instrument tag = keyOf other otherTag) :
    instrument = other ∧ tag = otherTag := by
  have texts := congrArg String.toList same
  rw [toList_keyOf, toList_keyOf] at texts
  -- The first character that goes on no word ends the instrument in both keys.
  obtain ⟨fronts, backs⟩ := Lexeme.append_inj_of_stops
    (Lexeme.continuesWord_of_isWord isName.1) (Lexeme.continuesWord_of_isWord otherIsName.1)
    (stops_tagText tag) (stops_tagText otherTag) texts
  exact ⟨String.toList_injective fronts, tagText_injective backs⟩

/-- A movement with the name of a macro for its key is an untagged one of that name. -/
theorem key_not_mem {movement : Movement} (isName : IsName movement.instrument)
    {names : List String} (areNames : ∀ name ∈ names, IsName name)
    (apart : movement.tag = none → movement.instrument ∉ names) : movement.key ∉ names := by
  intro member
  have same : keyOf movement.instrument movement.tag = keyOf movement.key none := rfl
  obtain ⟨sameName, untagged⟩ := keyOf_injective isName (areNames _ member) same
  rw [← sameName] at member
  exact apart untagged member

theorem nodup_keys {movements : List Movement}
    (areNames : ∀ movement ∈ movements, IsName movement.instrument)
    (distinct : (movements.map fun movement => (movement.instrument, movement.tag)).Nodup) :
    (movements.map key).Nodup := by
  unfold List.Nodup at distinct ⊢
  rw [List.pairwise_map] at distinct ⊢
  refine distinct.imp_of_mem ?_
  intro movement other member otherMember differ same
  obtain ⟨sameInstrument, sameTag⟩ :=
    keyOf_injective (areNames _ member) (areNames _ otherMember) same
  exact differ (Prod.ext sameInstrument sameTag)

end Movement

/-! ### The statements of a score -/

namespace Score

variable {score : Score}

theorem fills_metadata (entries : List Metadata) :
    score.Fills (entries.map fun entry => .metadata entry default)
      { score with metadata := score.metadata ++ entries } := by
  induction entries generalizing score with
  | nil => exact .nil ⟨(List.append_nil _).symm, rfl, rfl⟩
  | cons entry others inductionHypothesis =>
      refine .cons trivial ?_
      rw [List.append_cons]
      exact inductionHypothesis

theorem fills_macros (unopened : score.tracks = []) (added : List Macro)
    (distinct : ((score.macros ++ added).map Macro.name).Nodup) :
    score.Fills (added.map .definition) { score with macros := score.macros ++ added } := by
  induction added generalizing score with
  | nil => exact .nil ⟨rfl, by rw [List.append_nil], rfl⟩
  | cons definition others inductionHypothesis =>
      have fresh : definition.name ∉ score.macros.map Macro.name := by
        rw [List.map_append, List.map_cons] at distinct
        exact not_mem_of_nodup distinct
      have alike : (score.addMacro definition).1.Alike
          { score with macros := score.macros ++ [definition] } :=
        ⟨metadata_addMacro _ _, by rw [macros_addMacro], by rw [tracks_addMacro]⟩
      rw [List.append_cons] at distinct ⊢
      refine .cons ⟨unopened, fresh⟩ (Fills.of_alike ?_ alike)
      exact inductionHypothesis unopened distinct

/-- The movements that a track still lacks are added to it. -/
theorem fills_movements {earlier : List Track} {track : Track}
    (opened : score.tracks = earlier ++ [track]) (added : List Movement)
    (apart : ∀ movement ∈ added, movement.key ∉ score.macros.map Macro.name)
    (distinct : ((track.movements ++ added).map Movement.key).Nodup) :
    score.Fills (added.map .movement) { score with
      tracks := earlier ++ [{ track with movements := track.movements ++ added }] } := by
  induction added generalizing score track with
  | nil => exact .nil ⟨rfl, rfl, by rw [opened, List.append_nil]⟩
  | cons movement others inductionHypothesis =>
      obtain ⟨noMacro, othersApart⟩ := List.forall_mem_cons.mp apart
      have fresh : movement.key ∉ track.movements.map Movement.key := by
        rw [List.map_append, List.map_cons] at distinct
        exact not_mem_of_nodup distinct
      have alike : (score.addMovement movement).1.Alike
          { score with tracks := earlier ++ [track.add movement] } :=
        ⟨metadata_addMovement _ _, by rw [macros_addMovement], by rw [tracks_addMovement opened]⟩
      rw [List.append_cons track.movements] at distinct ⊢
      have joined : (((track.add movement).movements ++ others).map Movement.key).Nodup := distinct
      have onward : Fills { score with tracks := earlier ++ [track.add movement] } _ _ :=
        inductionHypothesis rfl othersApart joined
      exact .cons ⟨noMacro, earlier, track, opened, fresh⟩ (onward.of_alike alike)

theorem fills_tracks (added : List Track)
    (apart : ∀ track ∈ added, ∀ movement ∈ track.movements,
      movement.key ∉ score.macros.map Macro.name)
    (distinct : ∀ track ∈ added, (track.movements.map Movement.key).Nodup) :
    score.Fills (added.flatMap Track.statements)
      { score with tracks := score.tracks ++ added } := by
  induction added generalizing score with
  | nil => exact .nil ⟨rfl, rfl, by rw [List.append_nil]⟩
  | cons track others inductionHypothesis =>
      obtain ⟨trackApart, othersApart⟩ := List.forall_mem_cons.mp apart
      obtain ⟨trackDistinct, othersDistinct⟩ := List.forall_mem_cons.mp distinct
      have opened : (score.addTrack track.name).tracks = score.tracks ++ [⟨track.name, []⟩] := rfl
      have whole : (score.addTrack track.name).Fills (track.movements.map .movement)
          { score with tracks := score.tracks ++ [track] } :=
        fills_movements opened track.movements trackApart trackDistinct
      rw [List.flatMap_cons, List.append_cons]
      exact Fills.append (.cons trivial whole) (inductionHypothesis othersApart othersDistinct)

/-- The statements of a score that can be written fill the empty score up to it. -/
theorem Writable.fills (writable : score.Writable) : empty.Fills score.statements score := by
  have names : ∀ name ∈ score.macros.map Macro.name, IsName name := by
    intro name member
    obtain ⟨definition, isMacro, rfl⟩ := List.mem_map.mp member
    exact (writable.macros definition isMacro).name
  have instruments : ∀ track ∈ score.tracks, ∀ movement ∈ track.movements,
      IsName movement.instrument ∧ movement.key ∉ score.macros.map Macro.name := by
    intro track isTrack movement isMovement
    have member : movement ∈ score.movements := List.mem_flatMap.mpr ⟨track, isTrack, isMovement⟩
    have isName := (writable.movements movement member).instrument
    exact ⟨isName, Movement.key_not_mem isName names (writable.apart movement member)⟩
  have metadata : empty.Fills _ { empty with metadata := score.metadata } :=
    fills_metadata score.metadata
  have macros : Fills { empty with metadata := score.metadata } _
      { empty with metadata := score.metadata, macros := score.macros } :=
    fills_macros rfl score.macros writable.distinctMacros
  have tracks : Fills { empty with metadata := score.metadata, macros := score.macros } _
      { empty with
        metadata := score.metadata, macros := score.macros, tracks := score.tracks } :=
    fills_tracks score.tracks
      (fun track isTrack movement isMovement => (instruments track isTrack movement isMovement).2)
      fun track isTrack => Movement.nodup_keys
        (fun movement isMovement => (instruments track isTrack movement isMovement).1)
        (writable.distinctMovements track isTrack)
  have done : Fills { empty with
      metadata := score.metadata, macros := score.macros, tracks := score.tracks } [] score :=
    .nil ⟨rfl, rfl, rfl⟩
  have whole := metadata.append (macros.append (tracks.append done))
  rw [List.append_nil] at whole
  exact whole

end Score

end Solfege
