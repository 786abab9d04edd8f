import Solfege.Proofs.Inlining.Congruence

/-!
Contract: movements are inlined one after the other, each as if it were alone.

Owns:
- what inlining makes of a movement that stands alone, and of a track of such movements;
- a list in which problems are noted once each, whatever was noted before;
- the proof that a movement that is inlined behind others becomes what it becomes alone, and
  that its problems are noted behind theirs;
- the score with one movement only, and the whole score put together from such scores.

Does not own: how the state of an inlining changes within one movement.

One state is handed on from movement to movement. The problems in it are known to the next
one, and their number goes on being counted. The first matters for what is noted only, and
the second is only ever compared with itself.
-/

namespace Solfege

/-! ### Notes -/

namespace Inlining

/-- Notes a problem, unless it was noted before. -/
def note (known : List Diagnostic) (diagnostic : Diagnostic) : List Diagnostic :=
  if known.contains diagnostic then known else known ++ [diagnostic]

/-- Notes problems one after the other. -/
def noteAll (known diagnostics : List Diagnostic) : List Diagnostic :=
  diagnostics.foldl note known

@[simp] theorem noteAll_nil (known : List Diagnostic) : noteAll known [] = known := rfl

@[simp] theorem noteAll_cons (known : List Diagnostic) (diagnostic : Diagnostic)
    (rest : List Diagnostic) :
    noteAll known (diagnostic :: rest) = noteAll (note known diagnostic) rest := rfl

theorem noteAll_append (known early late : List Diagnostic) :
    noteAll known (early ++ late) = noteAll (noteAll known early) late :=
  List.foldl_append

theorem problems_fail (state : Inlining) (diagnostic : Diagnostic) :
    (state.fail diagnostic).problems = note state.problems diagnostic := rfl

theorem note_of_mem {known : List Diagnostic} {diagnostic : Diagnostic}
    (member : diagnostic ∈ known) : note known diagnostic = known :=
  if_pos (List.contains_iff_mem.mpr member)

theorem note_of_not_mem {known : List Diagnostic} {diagnostic : Diagnostic}
    (new : diagnostic ∉ known) : note known diagnostic = known ++ [diagnostic] :=
  if_neg (mt List.contains_iff_mem.mp new)

theorem mem_note {known : List Diagnostic} {diagnostic other : Diagnostic} :
    other ∈ note known diagnostic ↔ other ∈ known ∨ other = diagnostic := by
  by_cases member : diagnostic ∈ known
  · rw [note_of_mem member]
    constructor
    · exact Or.inl
    · rintro (here | rfl)
      · exact here
      · exact member
  · rw [note_of_not_mem member, List.mem_append, List.mem_singleton]

theorem mem_noteAll {known diagnostics : List Diagnostic} {other : Diagnostic} :
    other ∈ noteAll known diagnostics ↔ other ∈ known ∨ other ∈ diagnostics := by
  induction diagnostics generalizing known with
  | nil => simp
  | cons diagnostic rest inductionHypothesis =>
      rw [noteAll_cons, inductionHypothesis, mem_note, List.mem_cons, or_assoc]

/-- A list of notes holds each once. -/
theorem nodup_noteAll {known : List Diagnostic} (distinct : known.Nodup)
    (diagnostics : List Diagnostic) : (noteAll known diagnostics).Nodup := by
  induction diagnostics generalizing known with
  | nil => exact distinct
  | cons diagnostic rest inductionHypothesis =>
      rw [noteAll_cons]
      apply inductionHypothesis
      by_cases member : diagnostic ∈ known
      · rw [note_of_mem member]
        exact distinct
      · rw [note_of_not_mem member]
        refine List.nodup_append.mpr ⟨distinct, by simp, ?_⟩
        rintro other known' _ single rfl
        exact member (List.mem_singleton.mp single ▸ known')

/-- What is noted behind other notes is what they lack, each problem where it comes first. -/
theorem noteAll_eq (known diagnostics : List Diagnostic) :
    noteAll known diagnostics =
      known ++ (diagnostics.filter fun other => !known.contains other).eraseDups := by
  induction diagnostics generalizing known with
  | nil => simp
  | cons diagnostic rest inductionHypothesis =>
      rw [noteAll_cons, inductionHypothesis]
      by_cases member : diagnostic ∈ known
      · rw [note_of_mem member, List.filter_cons_of_neg (by simp [member])]
      · rw [note_of_not_mem member, List.filter_cons_of_pos (by simp [member]),
          List.eraseDups_cons, List.append_assoc, List.singleton_append, List.filter_filter]
        congr 3
        refine List.filter_congr fun other _ => ?_
        by_cases same : other = diagnostic <;> simp [same]

theorem noteAll_note (known more : List Diagnostic) (diagnostic : Diagnostic) :
    noteAll known (note more diagnostic) = note (noteAll known more) diagnostic := by
  by_cases member : diagnostic ∈ more
  · rw [note_of_mem member, note_of_mem (mem_noteAll.mpr (.inr member))]
  · rw [note_of_not_mem member, noteAll_append]
    rfl

theorem noteAll_noteAll (known more diagnostics : List Diagnostic) :
    noteAll known (noteAll more diagnostics) = noteAll (noteAll known more) diagnostics := by
  induction diagnostics generalizing more with
  | nil => rfl
  | cons diagnostic rest inductionHypothesis =>
      rw [noteAll_cons, inductionHypothesis, noteAll_note, noteAll_cons]

theorem noteAll_nil_eq (diagnostics : List Diagnostic) :
    noteAll [] diagnostics = diagnostics.eraseDups := by
  rw [noteAll_eq, List.nil_append]
  congr 1
  exact List.filter_eq_self.mpr fun _ _ => rfl

/-- Of several lists, each may list its problems once before they are noted together. -/
theorem eraseDups_flatMap_eraseDups {α : Type} (things : List α)
    (problems : α → List Diagnostic) :
    (things.flatMap fun thing => (problems thing).eraseDups).eraseDups =
      (things.flatMap problems).eraseDups := by
  have noted : ∀ known, noteAll known (things.flatMap fun thing => (problems thing).eraseDups) =
      noteAll known (things.flatMap problems) := by
    induction things with
    | nil => simp
    | cons thing rest inductionHypothesis =>
        intro known
        rw [List.flatMap_cons, List.flatMap_cons, noteAll_append, noteAll_append,
          inductionHypothesis, ← noteAll_nil_eq (problems thing), noteAll_noteAll, noteAll_nil]
  rw [← noteAll_nil_eq, noted, noteAll_nil_eq]

/-! ### Behind other movements -/

/-- The states of one movement, alone and behind others that met some problems. -/
structure Behind (earlier : List Diagnostic) (count : Nat) (alone behind : Inlining) : Prop where
  emitted : behind.emitted = alone.emitted
  spent : behind.spent = alone.spent
  exhausted : behind.exhausted = alone.exhausted
  active : behind.active = alone.active
  failures : behind.failures = count + alone.failures
  problems : behind.problems = noteAll earlier alone.problems

theorem Behind.fail {earlier : List Diagnostic} {count : Nat} {alone behind : Inlining}
    (related : Behind earlier count alone behind) (diagnostic : Diagnostic) :
    Behind earlier count (alone.fail diagnostic) (behind.fail diagnostic) where
  emitted := related.emitted
  spent := related.spent
  exhausted := related.exhausted
  active := related.active
  failures := congrArg Nat.succ related.failures
  problems := by
    rw [problems_fail, problems_fail, related.problems, noteAll_note]

theorem congruence_behind (earlier : List Diagnostic) (count : Nat) :
    Congruence (Behind earlier count) where
  emitted related := related.emitted
  spent related := related.spent
  exhausted related := related.exhausted
  active related := related.active
  louder related after := by
    rw [related.failures, after.failures, Nat.add_lt_add_iff_left]
  fail related diagnostic := related.fail diagnostic
  emitting related _ := { related with emitted := rfl }
  spending related _ := { related with spent := rfl }
  exhausting related := { related with exhausted := rfl }
  activating related _ := { related with active := rfl }

/-- Macros are inlined behind other movements as they are in a movement alone. -/
theorem unfoldTo_behind (around : Surroundings) (earlier : List Diagnostic) (count level : Nat) :
    UnfoldsTied (· = ·) (Behind earlier count) (unfoldTo around level)
      (unfoldTo around level) := by
  have congruence := congruence_behind earlier count
  induction level with
  | zero =>
      intro definition variant arguments alone behind same arity related
      exact related.fail _
  | succ level inductionHypothesis =>
      intro definition variant arguments alone behind same arity related
      subst same
      have warned := congruence.fails related
        (Expression.chordProblems (definition.parameters.zip arguments) definition.body)
      have inside := congruence.placeAll around.pairs_self inductionHypothesis
        (congruence.entering warned definition.name)
        (Expression.substituteAll (definition.parameters.zip arguments) definition.body)
      exact congruence.leaving inside

/-- A movement behind others is inlined as if it were alone, and what problems it has are
noted behind theirs. -/
theorem next_behind (around : Surroundings) (list : List Expression) (state : Inlining) :
    Behind state.problems state.failures (ofList around list) (state.next around list) := by
  have begun : Behind state.problems state.failures start state.renewed :=
    ⟨rfl, rfl, rfl, rfl, rfl, rfl⟩
  exact (congruence_behind _ _).placeAll around.pairs_self
    (unfoldTo_behind around _ _ around.macros.length) begun list

end Inlining

/-! ### Movements alone -/

/-- What inlining makes of a movement alone, and the problems that it has. -/
def Movement.inlineMacros (score : Score) (limit : Nat) (movement : Movement) :
    Movement × List Diagnostic :=
  let inlined := Inlining.ofList (score.around limit movement) movement.expressions
  ({ movement with expressions := inlined.emitted.reverse }, inlined.problems)

/-- What inlining makes of a track of which each movement stands alone. -/
def Track.inlineMacros (score : Score) (limit : Nat) (track : Track) :
    Track × List Diagnostic :=
  let (movements, problems) := changeAll (Movement.inlineMacros score limit) track.movements
  ({ track with movements := movements }, problems)

theorem Track.inlineMacros_name (score : Score) (limit : Nat) (track : Track) :
    (track.inlineMacros score limit).1.name = track.name := rfl

theorem Track.inlineMacros_movements (score : Score) (limit : Nat) (track : Track) :
    (track.inlineMacros score limit).1.movements =
      track.movements.map fun movement => (movement.inlineMacros score limit).1 :=
  changeAll_fst _ _

/-! ### One after the other -/

/-- The change makes of each thing, in whatever state, what it makes of it alone, and notes
its problems behind those that are known. -/
def InTurn {α : Type} (change : α → StateM Inlining α) (alone : α → α × List Diagnostic) :
    Prop :=
  ∀ thing state, ((change thing).run state).1 = (alone thing).1 ∧
    ((change thing).run state).2.problems =
      Inlining.noteAll state.problems (alone thing).2

/-- Things are changed one after the other as each of them is alone. -/
theorem InTurn.mapM {α : Type} {change : α → StateM Inlining α}
    {alone : α → α × List Diagnostic} (inTurn : InTurn change alone) :
    InTurn (List.mapM change) (changeAll alone) := by
  intro things
  induction things with
  | nil =>
      intro state
      exact ⟨rfl, rfl⟩
  | cons thing rest inductionHypothesis =>
      intro state
      obtain ⟨changed, problems⟩ := inTurn thing state
      obtain ⟨others, final⟩ := inductionHypothesis ((change thing).run state).2
      rw [List.mapM_cons]
      constructor
      · change ((change thing).run state).1 ::
          ((rest.mapM change).run ((change thing).run state).2).1 = _
        rw [changed, others]
        rfl
      · change ((rest.mapM change).run ((change thing).run state).2).2.problems = _
        rw [final, problems, ← Inlining.noteAll_append]
        rfl

theorem Movement.inTurn_inlineNext (score : Score) (limit : Nat) :
    InTurn (Movement.inlineNext score limit) (Movement.inlineMacros score limit) := by
  intro movement state
  have behind := Inlining.next_behind (score.around limit movement) movement.expressions state
  constructor
  · change { movement with expressions := (state.next (score.around limit movement)
      movement.expressions).emitted.reverse } = _
    rw [behind.emitted]
    rfl
  · exact behind.problems

theorem Track.inTurn_inlineNext (score : Score) (limit : Nat) :
    InTurn (Track.inlineNext score limit) (Track.inlineMacros score limit) := by
  intro track state
  obtain ⟨movements, problems⟩ :=
    (Movement.inTurn_inlineNext score limit).mapM track.movements state
  constructor
  · change { track with movements := ((track.movements.mapM
      (Movement.inlineNext score limit)).run state).1 } = _
    rw [movements]
    rfl
  · exact problems

/-- In one state that is handed on, each movement becomes what it becomes alone, and the
problems are those of the movements, each of them where it is met first. -/
theorem Score.inlineMacros_eq (limit : Nat) (score : Score) :
    score.inlineMacros limit =
      ({ score with tracks := (changeAll (Track.inlineMacros score limit) score.tracks).1 },
        (changeAll (Track.inlineMacros score limit) score.tracks).2.eraseDups) := by
  obtain ⟨tracks, problems⟩ :=
    (Track.inTurn_inlineNext score limit).mapM score.tracks Inlining.start
  have noted : Inlining.start.problems = [] := rfl
  rw [noted, Inlining.noteAll_nil_eq] at problems
  rw [← tracks, ← problems]
  rfl

theorem Score.inlineMacros_tracks (limit : Nat) (score : Score) :
    (score.inlineMacros limit).1.tracks =
      score.tracks.map fun track => (track.inlineMacros score limit).1 := by
  rw [inlineMacros_eq]
  exact changeAll_fst _ _

/-- Listing each problem once hides none. -/
theorem eraseDups_eq_nil_iff {diagnostics : List Diagnostic} :
    diagnostics.eraseDups = [] ↔ diagnostics = [] := by
  cases diagnostics with
  | nil => simp
  | cons diagnostic rest => simp [List.eraseDups_cons]

/-- The macros of a score are inlined without problems if, and only if, those of each
movement are. -/
theorem Score.inlineMacros_snd_eq_nil_iff {limit : Nat} {score : Score} :
    (score.inlineMacros limit).2 = [] ↔
      ∀ movement ∈ score.movements, (movement.inlineMacros score limit).2 = [] := by
  have inTracks : (score.inlineMacros limit).2 = [] ↔
      ∀ track ∈ score.tracks, ∀ movement ∈ track.movements,
        (movement.inlineMacros score limit).2 = [] := by
    rw [inlineMacros_eq, eraseDups_eq_nil_iff, changeAll_snd_eq_nil_iff]
    exact forall₂_congr fun _ _ => changeAll_snd_eq_nil_iff
  rw [inTracks]
  constructor
  · intro silent movement member
    obtain ⟨track, trackMember, inTrack⟩ := List.mem_flatMap.mp member
    exact silent track trackMember movement inTrack
  · intro silent track trackMember movement inTrack
    exact silent movement (List.mem_flatMap.mpr ⟨track, trackMember, inTrack⟩)

/-- The movements of the result are what the movements of the score became. -/
theorem Score.inlineMacros_movements (limit : Nat) (score : Score) :
    (score.inlineMacros limit).1.movements =
      score.movements.map fun movement => (movement.inlineMacros score limit).1 := by
  unfold movements
  simp only [inlineMacros_tracks, List.map_flatMap, List.flatMap_map,
    Track.inlineMacros_movements]

theorem Score.exists_of_mem_inlineMacros {limit : Nat} {score : Score} {movement : Movement}
    (member : movement ∈ (score.inlineMacros limit).1.movements) :
    ∃ before ∈ score.movements, movement = (before.inlineMacros score limit).1 := by
  rw [inlineMacros_movements] at member
  obtain ⟨before, beforeMember, rfl⟩ := List.mem_map.mp member
  exact ⟨before, beforeMember, rfl⟩

/-! ### One movement of a score -/

/-- Tracks without any movement but one, which is given by its track and its place there. -/
def Track.only : List Track → Nat → Nat → List Track
  | [], _, _ => []
  | there :: rest, 0, movement =>
      { there with movements := there.movements[movement]?.toList } ::
        rest.map fun other => { other with movements := [] }
  | there :: rest, track + 1, movement =>
      { there with movements := [] } :: only rest track movement

/-- The score without any movement but one. -/
def Score.only (score : Score) (track movement : Nat) : Score :=
  { score with tracks := Track.only score.tracks track movement }

/-- The places of all movements, in the order of the tracks. -/
def Track.places : List Track → List (Nat × Nat)
  | [] => []
  | there :: rest =>
      (List.range there.movements.length).map (Prod.mk 0) ++
        (places rest).map fun place => (place.1 + 1, place.2)

/-- Of the inlined tracks remains what is made of the one movement that remains. -/
theorem Track.only_inlineMacros (score : Score) (limit : Nat) (tracks : List Track)
    (track movement : Nat) :
    only (tracks.map fun there => (there.inlineMacros score limit).1) track movement =
      (only tracks track movement).map fun there => (there.inlineMacros score limit).1 := by
  induction tracks generalizing track with
  | nil => rfl
  | cons there rest inductionHypothesis =>
      cases track with
      | zero => simp [only, inlineMacros, changeAll, Option.toList_map]
      | succ track =>
          rw [List.map_cons, only, inductionHypothesis]
          rfl

theorem flatMap_range_getElem? {α β : Type} (things : List α) (f : Option α → List β) :
    ((List.range things.length).flatMap fun index => f things[index]?) =
      things.flatMap fun thing => f (some thing) := by
  have found : (List.range things.length).map (things[·]?) = things.map some := by
    apply List.ext_getElem <;> simp
  calc ((List.range things.length).flatMap fun index => f things[index]?)
      = ((List.range things.length).map (things[·]?)).flatMap f := by rw [List.flatMap_map]
    _ = (things.map some).flatMap f := by rw [found]
    _ = things.flatMap fun thing => f (some thing) := by rw [List.flatMap_map]

/-- The problems of each movement where it is the only one. -/
theorem Track.flatMap_places_only (score : Score) (limit : Nat) (tracks : List Track) :
    ((places tracks).flatMap fun place =>
      (changeAll (Track.inlineMacros score limit) (only tracks place.1 place.2)).2) =
        (changeAll (Track.inlineMacros score limit) tracks).2 := by
  induction tracks with
  | nil => rfl
  | cons there rest inductionHypothesis =>
      have silent : (changeAll (Track.inlineMacros score limit)
          (rest.map fun other => { other with movements := [] })).2 = [] := by
        rw [changeAll_snd_eq_nil_iff]
        intro _ member
        obtain ⟨other, _, rfl⟩ := List.mem_map.mp member
        rfl
      have alone : ∀ movement,
          (changeAll (Track.inlineMacros score limit) (only (there :: rest) 0 movement)).2 =
            (changeAll (Movement.inlineMacros score limit)
              there.movements[movement]?.toList).2 := by
        intro movement
        rw [only, changeAll_snd_cons, silent, List.append_nil]
        rfl
      have first : ((List.range there.movements.length).flatMap fun movement =>
          (changeAll (Track.inlineMacros score limit) (only (there :: rest) 0 movement)).2) =
            (there.inlineMacros score limit).2 := by
        simp only [alone]
        rw [flatMap_range_getElem? there.movements fun movement =>
          (changeAll (Movement.inlineMacros score limit) movement.toList).2]
        simp [inlineMacros, changeAll, List.flatMap_map]
      rw [places, List.flatMap_append, List.flatMap_map, List.flatMap_map, first,
        changeAll_snd_cons, ← inductionHypothesis]
      rfl

/-- The problems of a score are those of its movements alone. -/
theorem Score.inlineMacros_problems (limit : Nat) (score : Score) :
    (score.inlineMacros limit).2 =
      ((Track.places score.tracks).flatMap fun place =>
        ((score.only place.1 place.2).inlineMacros limit).2).eraseDups := by
  rw [inlineMacros_eq, ← Track.flatMap_places_only, ← Inlining.eraseDups_flatMap_eraseDups]
  simp only [inlineMacros_eq limit (score.only _ _)]
  rfl

theorem Score.nodup_inlineMacros (limit : Nat) (score : Score) :
    (score.inlineMacros limit).2.Nodup := by
  rw [inlineMacros_eq, ← Inlining.noteAll_nil_eq]
  exact Inlining.nodup_noteAll .nil _

/-- **Movements are inlined independently.** Of the inlined score, each movement is what it
becomes in the score without the other movements. The problems are those of these scores,
in the order of the movements, each of them where it is met first. -/
theorem Score.inlineMacros_one_by_one (limit : Nat) (score : Score) :
    (∀ track movement, (score.inlineMacros limit).1.only track movement =
      ((score.only track movement).inlineMacros limit).1) ∧
    (score.inlineMacros limit).2 =
      ((Track.places score.tracks).flatMap fun place =>
        ((score.only place.1 place.2).inlineMacros limit).2).eraseDups ∧
    (score.inlineMacros limit).2.Nodup := by
  refine ⟨fun track movement => ?_, score.inlineMacros_problems limit,
    score.nodup_inlineMacros limit⟩
  rw [inlineMacros_eq, inlineMacros_eq, changeAll_fst, changeAll_fst]
  unfold only
  rw [Track.only_inlineMacros]
  rfl

end Solfege
