import Solfege.Proofs.Names.Repeats

/-!
Contract: a definition whose name is taken is reported once, and no other is.

Owns:
- the order of the definitions of a score by their places;
- when a name is borne at an earlier place, and when a macro is the first to bear it;
- the count of problems about names at each definition of a score that was read;
- what is distinct in a score without problems.

Does not own: how problems come to be reported while statements are read.
-/

namespace Solfege

open NameTable (Entry)
open Reading (Statement Trace whole)

/-! ### What is reported of a score -/

/-- Among definitions in the order of their places, those in front of one are those at an earlier
place. -/
theorem Position.mem_front_iff {α : Type} {place : α → Position} {front back : List α}
    {last other : α} (ordered : (front ++ last :: back).Pairwise fun earlier later =>
      (place earlier).Before (place later)) :
    other ∈ front ↔ other ∈ front ++ last :: back ∧ (place other).Before (place last) := by
  rcases List.pairwise_append.mp ordered with ⟨_, behind, apart⟩
  constructor
  · intro member
    exact ⟨List.mem_append_left _ member, apart other member last List.mem_cons_self⟩
  · rintro ⟨member, before⟩
    rcases List.mem_append.mp member with early | late
    · exact early
    · rcases List.mem_cons.mp late with rfl | later
      · exact absurd before (Before.irrefl _)
      · exact absurd before ((List.pairwise_cons.mp behind).1 other later).asymm

namespace Score

/-- The definitions of a score are stored in the order of their places, and no two of them
share a place. -/
structure InOrder (score : Score) : Prop where
  macros : score.macros.Pairwise fun earlier later =>
    earlier.token.position.Before later.token.position
  movements : score.movements.Pairwise fun earlier later =>
    earlier.token.position.Before later.token.position
  apart : ∀ definition ∈ score.macros, ∀ movement ∈ score.movements,
    definition.token.position ≠ movement.token.position

/-- A definition at an earlier place bears the name: a macro, or a movement with it as key. -/
def IsNamedBefore (score : Score) (name : String) (position : Position) : Prop :=
  (∃ definition ∈ score.macros, definition.name = name ∧
    definition.token.position.Before position) ∨
  ∃ movement ∈ score.movements, movement.key = name ∧ movement.token.position.Before position

/-- The first definition of the name is a macro. -/
def IsMacroFirst (score : Score) (name : String) : Prop :=
  ∃ definition ∈ score.macros, definition.name = name ∧
    ∀ movement ∈ score.movements, movement.key = name →
      definition.token.position.Before movement.token.position

/-- How many problems about names are reported at a token. -/
def namingProblemsAt (score : Score) (token : Token) : Nat :=
  score.diagnostics.countP (Diagnostic.isNamingAt token.position)

/-- One problem about names is reported at the token if the condition holds, and none
otherwise. -/
def ReportsIff (score : Score) (token : Token) (condition : Prop) : Prop :=
  (condition → score.namingProblemsAt token = 1) ∧
    (¬condition → score.namingProblemsAt token = 0)

section Written

variable {score : Score} {written earlier later : List Stored} {stored : Stored}

/-- The first definition of a name stands in front of all others that bear it. -/
theorem eq_or_before_of_find? {first other : Stored} {name : String}
    (ordered : written.Pairwise fun earlier later =>
      earlier.token.position.Before later.token.position)
    (found : (written.find? fun stored => stored.name = name) = some first)
    (member : other ∈ written) (same : other.name = name) :
    other = first ∨ first.token.position.Before other.token.position := by
  rcases List.find?_eq_some_iff_append.mp found with ⟨_, front, back, rfl, others⟩
  rcases List.mem_append.mp member with early | late
  · have differs := others other early
    simp [same] at differs
  · rcases List.mem_cons.mp late with rfl | later
    · exact .inl rfl
    · have behind := (List.pairwise_append.mp ordered).2.1
      exact .inr ((List.pairwise_cons.mp behind).1 other later)

theorem map_token_storedMacros (score : Score) :
    score.storedMacros.map Stored.token = score.macros.map Macro.token := by
  unfold storedMacros
  apply List.ext_getElem
  · simp
  · simp

theorem map_token_storedMovements (score : Score) :
    score.storedMovements.map Stored.token = score.movements.map Movement.token := by
  have each : (score.tracks.mapIdx fun index track => track.stored (index + 1)).map
      (List.map Stored.token) =
        score.tracks.map fun track => track.movements.map Movement.token := by
    apply List.ext_getElem
    · simp
    · intro index bound _
      apply List.ext_getElem
      · simp [Track.stored]
      · simp [Track.stored]
  unfold storedMovements movements
  rw [List.map_flatten, each, List.map_flatMap, List.flatMap_def]

variable (named : score.NamedBy written)

include named

theorem NamedBy.exists_stored_macro {definition : Macro} (member : definition ∈ score.macros) :
    ∃ index, ⟨definition.name, .macroAt (index + 1), definition.token⟩ ∈ written := by
  rcases List.getElem?_of_mem member with ⟨index, found⟩
  exact ⟨index, named.mem_iff.mpr (.inl (mem_storedMacros.mpr ⟨index, definition, found, rfl⟩))⟩

theorem NamedBy.exists_stored_movement {movement : Movement} (member : movement ∈ score.movements) :
    ∃ number index, ⟨movement.key, .movementAt (number + 1) (index + 1), movement.token⟩ ∈
      written := by
  rcases List.mem_flatMap.mp member with ⟨track, inTracks, inTrack⟩
  rcases List.getElem?_of_mem inTracks with ⟨number, found⟩
  rcases List.getElem?_of_mem inTrack with ⟨index, foundMovement⟩
  exact ⟨number, index, named.mem_iff.mpr (.inr (mem_storedMovements.mpr
    ⟨number, track, index, movement, found, foundMovement, rfl⟩))⟩

/-- A definition that is written is a macro or a movement of the score. -/
theorem NamedBy.exists_macro (member : stored ∈ written) (isMacro : stored.isMacro = true) :
    ∃ definition ∈ score.macros,
      definition.name = stored.name ∧ definition.token = stored.token := by
  have among : stored ∈ written.filter Stored.isMacro := List.mem_filter.mpr ⟨member, isMacro⟩
  rw [named.macros] at among
  rcases mem_storedMacros.mp among with ⟨index, definition, found, rfl⟩
  exact ⟨definition, List.mem_of_getElem? found, rfl, rfl⟩

theorem NamedBy.exists_movement (member : stored ∈ written) (isMovement : stored.isMacro = false) :
    ∃ movement ∈ score.movements,
      movement.key = stored.name ∧ movement.token = stored.token := by
  have among : stored ∈ written.filter fun stored => !stored.isMacro :=
    List.mem_filter.mpr ⟨member, by simp [isMovement]⟩
  rw [named.movements] at among
  rcases mem_storedMovements.mp among with
    ⟨number, track, index, movement, found, foundMovement, rfl⟩
  have inScore : movement ∈ score.movements :=
    List.mem_flatMap.mpr ⟨track, List.mem_of_getElem? found, List.mem_of_getElem? foundMovement⟩
  exact ⟨movement, inScore, rfl, rfl⟩

/-- What holds of some definition that is written holds of some macro or movement. -/
theorem NamedBy.exists_iff (test : String → Token → Prop) :
    (∃ stored ∈ written, test stored.name stored.token) ↔
      (∃ definition ∈ score.macros, test definition.name definition.token) ∨
        ∃ movement ∈ score.movements, test movement.key movement.token := by
  constructor
  · rintro ⟨stored, member, passes⟩
    rcases named.mem_iff.mp member with isMacro | isMovement
    · rcases mem_storedMacros.mp isMacro with ⟨index, definition, found, rfl⟩
      exact .inl ⟨definition, List.mem_of_getElem? found, passes⟩
    · rcases mem_storedMovements.mp isMovement with
        ⟨number, track, index, movement, found, foundMovement, rfl⟩
      have inScore : movement ∈ score.movements :=
        List.mem_flatMap.mpr ⟨track, List.mem_of_getElem? found,
          List.mem_of_getElem? foundMovement⟩
      exact .inr ⟨movement, inScore, passes⟩
  · rintro (⟨definition, member, passes⟩ | ⟨movement, member, passes⟩)
    · rcases named.exists_stored_macro member with ⟨index, isStored⟩
      exact ⟨_, isStored, passes⟩
    · rcases named.exists_stored_movement member with ⟨number, index, isStored⟩
      exact ⟨_, isStored, passes⟩

variable (ordered : written.Pairwise fun earlier later =>
  earlier.token.position.Before later.token.position)

include ordered

theorem NamedBy.inOrder : score.InOrder where
  macros := by
    have sorted := ordered.filter Stored.isMacro
    rw [named.macros] at sorted
    have placed : (score.storedMacros.map Stored.token).Pairwise fun earlier later =>
        earlier.position.Before later.position := List.pairwise_map.mpr sorted
    rw [map_token_storedMacros, List.pairwise_map] at placed
    exact placed
  movements := by
    have sorted := ordered.filter fun stored => !stored.isMacro
    rw [named.movements] at sorted
    have placed : (score.storedMovements.map Stored.token).Pairwise fun earlier later =>
        earlier.position.Before later.position := List.pairwise_map.mpr sorted
    rw [map_token_storedMovements, List.pairwise_map] at placed
    exact placed
  apart := by
    intro definition member movement movementMember same
    rcases named.exists_stored_macro member with ⟨index, isStored⟩
    rcases named.exists_stored_movement movementMember with ⟨number, other, otherStored⟩
    have shared := Position.eq_of_pairwise ordered isStored otherStored same
    have impossible : true = false := congrArg Stored.isMacro shared
    contradiction

/-- A macro repeats an earlier definition exactly if its name is borne at an earlier place. -/
theorem NamedBy.isRepeat_macro (same : written = earlier ++ stored :: later) {index : Nat}
    (isMacro : stored.entry = .macroAt index) :
    stored.isRepeat earlier = true ↔
      score.IsNamedBefore stored.name stored.token.position := by
  have known := named.exists_iff fun name token =>
    name = stored.name ∧ token.position.Before stored.token.position
  subst same
  unfold Stored.isRepeat IsNamedBefore
  rw [isMacro, ← known]
  simp only [List.any_eq_true, decide_eq_true_eq]
  constructor
  · rintro ⟨other, member, sameName⟩
    have inFront := (Position.mem_front_iff ordered).mp member
    exact ⟨other, inFront.1, sameName, inFront.2⟩
  · rintro ⟨other, member, sameName, before⟩
    exact ⟨other, (Position.mem_front_iff ordered).mpr ⟨member, before⟩, sameName⟩

/-- Where a macro stands in front of all movements of a name, the first definition that is
written with the name is a macro. -/
theorem NamedBy.exists_first_macro {name : String} (isFirst : score.IsMacroFirst name) :
    ∃ first, (written.find? fun other => other.name = name) = some first ∧
      first.isMacro = true := by
  rcases isFirst with ⟨definition, isDefinition, sameName, before⟩
  rcases named.exists_stored_macro isDefinition with ⟨index, isStored⟩
  have found : (written.find? fun other => other.name = name).isSome = true := by
    rw [List.find?_isSome]
    exact ⟨_, isStored, decide_eq_true sameName⟩
  rcases Option.isSome_iff_exists.mp found with ⟨first, isFirst⟩
  refine ⟨first, isFirst, ?_⟩
  rw [← Bool.not_eq_false]
  intro isMovement
  rcases named.exists_movement (List.mem_of_find?_eq_some isFirst) isMovement with
    ⟨movement, isIn, key, token⟩
  have firstName : first.name = name := by simpa using List.find?_some isFirst
  have early := before movement isIn (key.trans firstName)
  rw [token] at early
  rcases eq_or_before_of_find? ordered isFirst isStored sameName with same | late
  · rw [← same] at isMovement
    contradiction
  · exact early.asymm late

/-- The first definition of a name in front of a movement that bears it is a macro exactly if
the first of all is one. -/
theorem NamedBy.any_isMacro_iff (same : written = earlier ++ stored :: later)
    (isMovement : stored.isMacro = false) :
    (earlier.find? fun other => other.name = stored.name).any Stored.isMacro = true ↔
      score.IsMacroFirst stored.name := by
  have member : stored ∈ written := by simp [same]
  constructor
  · intro found
    rcases (Option.any_eq_true _ _).mp found with ⟨first, isFirst, isMacro⟩
    have firstOfAll : (written.find? fun other => other.name = stored.name) = some first := by
      rw [same, List.find?_append, isFirst, Option.some_or]
    have sameName : first.name = stored.name := by simpa using List.find?_some isFirst
    rcases named.exists_macro (List.mem_of_find?_eq_some firstOfAll) isMacro with
      ⟨definition, isDefinition, name, token⟩
    refine ⟨definition, isDefinition, name.trans sameName, fun movement isIn key => ?_⟩
    rcases named.exists_stored_movement isIn with ⟨number, index, isStored⟩
    rw [token]
    rcases eq_or_before_of_find? ordered firstOfAll isStored key with rfl | before
    · contradiction
    · exact before
  · intro isFirst
    rcases named.exists_first_macro ordered isFirst with ⟨first, firstOfAll, isMacro⟩
    have inFront : first ∈ earlier := by
      rcases eq_or_before_of_find? ordered firstOfAll member rfl with rfl | before
      · rw [isMacro] at isMovement
        contradiction
      · subst same
        exact (Position.mem_front_iff ordered).mpr ⟨List.mem_of_find?_eq_some firstOfAll, before⟩
    have sameName : first.name = stored.name := by simpa using List.find?_some firstOfAll
    have found : (earlier.find? fun other => other.name = stored.name).isSome = true := by
      rw [List.find?_isSome]
      exact ⟨first, inFront, decide_eq_true sameName⟩
    rcases Option.isSome_iff_exists.mp found with ⟨other, isOther⟩
    rw [same, List.find?_append, isOther, Option.some_or] at firstOfAll
    rw [isOther, Option.any_some, Option.some.inj firstOfAll, isMacro]

/-- A movement repeats an earlier definition exactly if its key occurs in front of it in its
track, or if a macro was the first to bear it. -/
theorem NamedBy.isRepeat_movement {number : Nat} {track : Track}
    (found : score.tracks[number]? = some track) {front back : List Movement}
    {movement : Movement} (split : track.movements = front ++ movement :: back)
    (stores : stored =
      ⟨movement.key, .movementAt (number + 1) (front.length + 1), movement.token⟩)
    (same : written = earlier ++ stored :: later) :
    stored.isRepeat earlier = true ↔
      (∃ other ∈ front, other.key = movement.key) ∨ score.IsMacroFirst movement.key := by
  have first := named.any_isMacro_iff ordered same (by rw [stores]; rfl)
  have inTrack := named.exists_isIn_iff found fun name token =>
    name = movement.key ∧ token.position.Before movement.token.position
  have sorted := (List.pairwise_flatMap.mp (named.inOrder ordered).movements).1 track
    (List.mem_of_getElem? found)
  rw [split] at sorted inTrack
  subst same
  subst stores
  unfold Stored.isRepeat
  dsimp only at first ⊢
  rw [Bool.or_eq_true, first, List.any_eq_true]
  apply or_congr_left
  constructor
  · rintro ⟨other, member, passes⟩
    rw [Bool.and_eq_true, decide_eq_true_eq] at passes
    have inFront := (Position.mem_front_iff ordered).mp member
    rcases inTrack.mp ⟨other, inFront.1, passes.1, passes.2, inFront.2⟩ with
      ⟨movement, isIn, key, before⟩
    exact ⟨movement, (Position.mem_front_iff sorted).mpr ⟨isIn, before⟩, key⟩
  · rintro ⟨other, member, key⟩
    have inFront := (Position.mem_front_iff sorted).mp member
    rcases inTrack.mpr ⟨other, inFront.1, key, inFront.2⟩ with
      ⟨found, isWritten, isIn, name, before⟩
    refine ⟨found, (Position.mem_front_iff ordered).mpr ⟨isWritten, before⟩, ?_⟩
    simp [isIn, name]

end Written

/-! ### Names and keys -/

/-- All names of definitions are words that may be names. -/
structure Worded (score : Score) : Prop where
  macros : ∀ definition ∈ score.macros, IsName definition.name
  movements : ∀ movement ∈ score.movements, IsName movement.instrument

variable {score : Score}

theorem key_eq_iff (worded : score.Worded) {movement other : Movement}
    (member : movement ∈ score.movements) (otherMember : other ∈ score.movements) :
    other.key = movement.key ↔
      other.instrument = movement.instrument ∧ other.tag = movement.tag := by
  constructor
  · exact Movement.keyOf_injective (worded.movements other otherMember)
      (worded.movements movement member)
  · rintro ⟨sameInstrument, sameTag⟩
    unfold Movement.key
    rw [sameInstrument, sameTag]

/-- Only the key of an untagged movement can be the name of a macro. -/
theorem isMacroFirst_key_iff (worded : score.Worded) {movement : Movement}
    (member : movement ∈ score.movements) :
    score.IsMacroFirst movement.key ↔
      movement.tag = none ∧ score.IsMacroFirst movement.instrument := by
  constructor
  · intro isFirst
    rcases isFirst with ⟨definition, isDefinition, sameName, before⟩
    have untagged : definition.name = movement.instrument ∧ none = movement.tag :=
      Movement.keyOf_injective (worded.macros definition isDefinition)
        (worded.movements movement member) sameName
    rw [← untagged.1]
    refine ⟨untagged.2.symm, definition, isDefinition, rfl, fun other isOther key => ?_⟩
    exact before other isOther (key.trans sameName)
  · rintro ⟨untagged, isFirst⟩
    have same : movement.key = movement.instrument := by
      unfold Movement.key
      rw [untagged]
      rfl
    rw [same]
    exact isFirst

/-! ### Every definition of a score -/

/-- Each definition is reported once if it repeats an earlier one, and not at all otherwise. -/
structure ReportsRepeats (score : Score) : Prop where
  macros : ∀ definition ∈ score.macros,
    score.ReportsIff definition.token
      (score.IsNamedBefore definition.name definition.token.position)
  movements : ∀ track ∈ score.tracks, ∀ front movement back,
    track.movements = front ++ movement :: back →
      score.ReportsIff movement.token
        ((∃ other ∈ front, other.instrument = movement.instrument ∧ other.tag = movement.tag) ∨
          movement.tag = none ∧ score.IsMacroFirst movement.instrument)

theorem reportsIff_of_judged {tokens : List Token} {place : Nat}
    {written earlier later : List Stored} {stored : Stored}
    (judged : Judged tokens place score score.diagnostics written)
    (same : written = earlier ++ stored :: later) {condition : Prop}
    (repeats : stored.isRepeat earlier = true ↔ condition) :
    score.ReportsIff stored.token condition := by
  have counted : score.namingProblemsAt stored.token = (stored.isRepeat earlier).toNat :=
    judged.counted earlier stored later same
  constructor
  · intro holds
    rw [counted, repeats.mpr holds]
    rfl
  · intro fails
    have isNew : stored.isRepeat earlier = false := by
      rw [← Bool.not_eq_true, repeats]
      exact fails
    rw [counted, isNew]
    rfl

theorem reportsRepeats_of_judged {tokens : List Token} {place : Nat} {written : List Stored}
    (worded : score.Worded) (judged : Judged tokens place score score.diagnostics written) :
    score.ReportsRepeats where
  macros definition member := by
    rcases judged.named.exists_stored_macro member with ⟨index, isStored⟩
    rcases List.append_of_mem isStored with ⟨earlier, later, same⟩
    have repeats := judged.named.isRepeat_macro judged.ordered same rfl
    exact reportsIff_of_judged judged same repeats
  movements track isTrack front movement back split := by
    rcases List.getElem?_of_mem isTrack with ⟨number, found⟩
    have foundMovement : track.movements[front.length]? = some movement := by simp [split]
    have isStored := judged.named.mem_iff.mpr (.inr (mem_storedMovements.mpr
      ⟨number, track, front.length, movement, found, foundMovement, rfl⟩))
    rcases List.append_of_mem isStored with ⟨earlier, later, same⟩
    have repeats := judged.named.isRepeat_movement judged.ordered found split rfl same
    have inScore {other : Movement} (member : other ∈ track.movements) :
        other ∈ score.movements := List.mem_flatMap.mpr ⟨track, isTrack, member⟩
    have isIn : movement ∈ score.movements := inScore (by simp [split])
    have keys : (∃ other ∈ front, other.key = movement.key) ↔
        ∃ other ∈ front, other.instrument = movement.instrument ∧ other.tag = movement.tag := by
      apply exists_congr
      intro other
      apply and_congr_right
      intro inFront
      exact key_eq_iff worded isIn (inScore (by simp [split, inFront]))
    rw [keys, isMacroFirst_key_iff worded isIn] at repeats
    exact reportsIff_of_judged judged same repeats

/-- No two definitions get in each other's way: names of macros are distinct, none of them is the
instrument of an untagged movement, and in each track no instrument occurs twice with one tag. -/
structure Distinct (score : Score) : Prop where
  macros : (score.macros.map Macro.name).Nodup
  apart : ∀ definition ∈ score.macros, ∀ movement ∈ score.movements,
    movement.tag = none → definition.name ≠ movement.instrument
  movements : ∀ track ∈ score.tracks,
    (track.movements.map fun movement => (movement.instrument, movement.tag)).Nodup

/-- Where nothing is reported, no condition for a report holds. -/
theorem ReportsIff.not_of_silent {token : Token} {condition : Prop}
    (reports : score.ReportsIff token condition) (silent : score.diagnostics = []) :
    ¬condition := by
  intro holds
  have once := reports.1 holds
  unfold namingProblemsAt at once
  rw [silent] at once
  contradiction

theorem ReportsRepeats.distinct (reports : score.ReportsRepeats) (inOrder : score.InOrder)
    (silent : score.diagnostics = []) : score.Distinct := by
  have unnamed : ∀ definition ∈ score.macros,
      ¬score.IsNamedBefore definition.name definition.token.position :=
    fun definition member => (reports.macros definition member).not_of_silent silent
  constructor
  case macros =>
    apply List.pairwise_map.mpr
    apply inOrder.macros.imp_of_mem
    intro earlier later isEarlier isLater before same
    exact unnamed later isLater (.inl ⟨earlier, isEarlier, same, before⟩)
  case apart =>
    intro definition isDefinition movement isMovement untagged same
    have key : movement.key = movement.instrument := by
      unfold Movement.key
      rw [untagged]
      rfl
    rcases List.mem_flatMap.mp isMovement with ⟨track, isTrack, inTrack⟩
    rcases List.append_of_mem inTrack with ⟨front, back, split⟩
    apply (reports.movements track isTrack front movement back split).not_of_silent silent
    -- No movement of that name stands in front of the macro, or the macro would be reported.
    refine .inr ⟨untagged, definition, isDefinition, same, fun other isOther sameKey => ?_⟩
    have notBefore : ¬other.token.position.Before definition.token.position := by
      intro before
      apply unnamed definition isDefinition
      exact .inr ⟨other, isOther, sameKey.trans same.symm, before⟩
    have apart := inOrder.apart definition isDefinition other isOther
    exact (Position.before_or_before apart).resolve_right notBefore
  case movements =>
    intro track isTrack
    have sorted := (List.pairwise_flatMap.mp inOrder.movements).1 track isTrack
    apply List.pairwise_map.mpr
    apply sorted.imp_of_mem
    intro earlier later isEarlier isLater before same
    rcases List.append_of_mem isLater with ⟨front, back, split⟩
    apply (reports.movements track isTrack front later back split).not_of_silent silent
    rw [split] at sorted isEarlier
    have inFront := (Position.mem_front_iff sorted).mpr ⟨isEarlier, before⟩
    exact .inl ⟨earlier, inFront, (Prod.mk.inj same).1, (Prod.mk.inj same).2⟩

theorem worded_of_trace {tokens : List Token} {trackName : String}
    {stretches : List Reading.Stretch} {place : Nat} {reported : List Diagnostic}
    (sorted : Token.Ordered (whole tokens))
    (trace : Trace (whole tokens) (opened tokens trackName) stretches place score reported) :
    score.Worded where
  macros definition member := by
    rcases exists_occupies_of_macro trace member with ⟨_, _, here, isWord, name, _⟩
    rw [name]
    exact sorted.names _ (List.mem_of_getElem? here) isWord
  movements movement member := by
    rcases exists_occupies_of_movement trace member with ⟨_, _, here, isWord, instrument, _⟩
    rw [instrument]
    exact sorted.names _ (List.mem_of_getElem? here) isWord

/-- A source ends in an end of file token, so none is added. -/
theorem ordered_whole {tokens : List Token} (sorted : Token.Ordered tokens) :
    Token.Ordered (whole tokens) := by
  obtain ⟨final, last, ends⟩ := sorted.ends
  rcases Reading.whole_eq tokens with ⟨_, _, _, same⟩ | ⟨isOpen, _⟩
  · rw [same]
    exact sorted
  · exact absurd ends (isOpen final last)

theorem worded_of_ofTokens {source : String} {tokens : List Token} {trackName : String}
    (tokenized : Token.tokenize source = .ok tokens)
    (read : ofTokens tokens trackName = .ok score) : score.Worded := by
  rcases exists_trace tokens trackName with ⟨filled, reported, stretches, place, found, trace, _⟩
  have worded := worded_of_trace (ordered_whole (Token.ordered_of_tokenize tokenized)) trace
  obtain rfl := Except.ok.inj (found.symm.trans read)
  exact ⟨worded.macros, worded.movements⟩

/-- **Duplicate names are reported exactly.** Of a source that is cut into tokens, a macro is
reported once if an earlier definition bears its name, and a movement once if its instrument
occurs with its tag in front of it in its track, or if it has no tag and a macro was the first
to be named like its instrument. No other definition is reported. -/
theorem duplicates_reported_once {source : String} {tokens : List Token}
    (tokenized : Token.tokenize source = .ok tokens) (trackName : String) :
    ∃ score, ofTokens tokens trackName = .ok score ∧ score.InOrder ∧ score.ReportsRepeats ∧
      (score.diagnostics = [] → score.Distinct) := by
  rcases exists_trace tokens trackName with ⟨filled, reported, stretches, place, read, trace, _⟩
  have sorted := ordered_whole (Token.ordered_of_tokenize tokenized)
  have worded := worded_of_trace sorted trace
  rcases Judged.exists_of_trace sorted (namedBy_opened tokens trackName) trace with
    ⟨written, judged⟩
  have named := judged.named
  -- What is known of the definitions does not depend on the problems that the score holds.
  have known : Judged (whole tokens) place { filled with diagnostics := reported } reported
      written :=
    ⟨⟨named.macros, named.movements, named.names, named.faithful⟩, judged.lies, judged.ordered,
      judged.within, judged.counted⟩
  have inOrder := known.named.inOrder known.ordered
  have names : Worded { filled with diagnostics := reported } :=
    ⟨worded.macros, worded.movements⟩
  have reports := reportsRepeats_of_judged names known
  exact ⟨_, read, inOrder, reports, reports.distinct inOrder⟩

/-- How many problems about names are reported at each macro and at each movement. -/
def namingCounts (score : Score) : List Nat × List Nat :=
  (score.macros.map fun definition => score.namingProblemsAt definition.token,
    score.movements.map fun movement => score.namingProblemsAt movement.token)

theorem duplicates_reported_once_three :
    ∃ tokens score,
      Token.tokenize "a = do\na = re\npiano: do\npiano: re\npiano \"a\": mi\na: fa" = .ok tokens ∧
      ofTokens tokens defaultTrack = .ok score ∧ score.InOrder ∧ score.ReportsRepeats ∧
      (score.diagnostics = [] → score.Distinct) ∧
      score.namingCounts = ([0, 1], [0, 1, 0, 1]) := by
  have counted : ((Token.tokenize
      "a = do\na = re\npiano: do\npiano: re\npiano \"a\": mi\na: fa").bind fun tokens =>
        (ofTokens tokens defaultTrack).map namingCounts) = .ok ([0, 1], [0, 1, 0, 1]) := by
    decide +kernel
  cases tokenized : Token.tokenize
      "a = do\na = re\npiano: do\npiano: re\npiano \"a\": mi\na: fa" with
  | error diagnostic =>
      rw [tokenized] at counted
      contradiction
  | ok tokens =>
      rcases duplicates_reported_once tokenized defaultTrack with
        ⟨score, read, inOrder, reports, distinct⟩
      rw [tokenized] at counted
      have found : (ofTokens tokens defaultTrack).map namingCounts =
          .ok ([0, 1], [0, 1, 0, 1]) := counted
      rw [read] at found
      exact ⟨tokens, score, rfl, read, inOrder, reports, distinct, Except.ok.inj found⟩

end Score

end Solfege
