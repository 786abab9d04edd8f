import Solfege.Proofs.Names.Source
import Solfege.Proofs.Provenance.Score

/-!
Contract: a definition that repeats another one has a problem with its name, and no other has.

Owns:
- when a definition repeats one of those that were written before it;
- the problem that a score has with such a definition, and with no other;
- the problems about names by the places that they are reported at;
- the count of these problems at each definition, up to any place of the input.

Does not own: what the repetition of a definition means to the score.

Definitions are told apart by the places of their names. A parameter that is repeated is
reported behind the name of its macro, so it is never mistaken for the macro.
-/

namespace Solfege

open NameTable (Entry)
open Reading (Statement Trace whole)

/-! ### Repeated definitions -/

namespace Stored

/-- The definition is a movement in the track of a number. -/
def isIn (number : Nat) (stored : Stored) : Bool :=
  match stored.entry with
  | .macroAt _ => false
  | .movementAt track _ => track = number

/-- A macro repeats any definition of its name. A movement repeats one of its key in its own
track; any other it repeats only where a macro was the first of that name. -/
def isRepeat (earlier : List Stored) (stored : Stored) : Bool :=
  match stored.entry with
  | .macroAt _ => earlier.any fun other => other.name = stored.name
  | .movementAt number _ =>
      (earlier.any fun other => other.isIn number && other.name = stored.name) ||
        (earlier.find? fun other => other.name = stored.name).any isMacro

end Stored

namespace Score

variable {score : Score} {written : List Stored}

theorem mem_storedMacros {stored : Stored} :
    stored ∈ score.storedMacros ↔ ∃ index definition, score.macros[index]? = some definition ∧
      stored = ⟨definition.name, .macroAt (index + 1), definition.token⟩ := by
  unfold storedMacros
  rw [List.mem_mapIdx]
  constructor
  · rintro ⟨index, bound, rfl⟩
    exact ⟨index, _, List.getElem?_eq_getElem bound, rfl⟩
  · rintro ⟨index, definition, found, rfl⟩
    rcases List.getElem?_eq_some_iff.mp found with ⟨bound, rfl⟩
    exact ⟨index, bound, rfl⟩

theorem mem_storedMovements {stored : Stored} :
    stored ∈ score.storedMovements ↔ ∃ number track index movement,
      score.tracks[number]? = some track ∧ track.movements[index]? = some movement ∧
      stored = ⟨movement.key, .movementAt (number + 1) (index + 1), movement.token⟩ := by
  unfold storedMovements Track.stored
  rw [List.mem_flatten]
  constructor
  · rintro ⟨_, inTrack, member⟩
    rcases List.mem_mapIdx.mp inTrack with ⟨number, bound, rfl⟩
    rcases List.mem_mapIdx.mp member with ⟨index, indexBound, rfl⟩
    exact ⟨number, _, index, _, List.getElem?_eq_getElem bound,
      List.getElem?_eq_getElem indexBound, rfl⟩
  · rintro ⟨number, track, index, movement, found, foundMovement, rfl⟩
    rcases List.getElem?_eq_some_iff.mp found with ⟨bound, rfl⟩
    rcases List.getElem?_eq_some_iff.mp foundMovement with ⟨indexBound, rfl⟩
    exact ⟨_, List.mem_mapIdx.mpr ⟨number, bound, rfl⟩,
      List.mem_mapIdx.mpr ⟨index, indexBound, rfl⟩⟩

/-- What was written is what is stored. -/
theorem NamedBy.mem_iff (named : score.NamedBy written) {stored : Stored} :
    stored ∈ written ↔ stored ∈ score.storedMacros ∨ stored ∈ score.storedMovements := by
  rw [← named.macros, ← named.movements, List.mem_filter, List.mem_filter]
  cases stored.isMacro <;> simp

/-- The definitions that are written as movements of a track are its movements. -/
theorem NamedBy.exists_isIn_iff (named : score.NamedBy written) {number : Nat} {track : Track}
    (found : score.tracks[number]? = some track) (test : String → Token → Prop) :
    (∃ other ∈ written, other.isIn (number + 1) = true ∧ test other.name other.token) ↔
      ∃ movement ∈ track.movements, test movement.key movement.token := by
  constructor
  · rintro ⟨other, member, isIn, passes⟩
    rcases named.mem_iff.mp member with isMacro | isMovement
    · rcases mem_storedMacros.mp isMacro with ⟨_, _, _, rfl⟩
      cases isIn
    · rcases mem_storedMovements.mp isMovement with
        ⟨there, other, index, movement, isTrack, isMovement, rfl⟩
      have here : there = number := by simpa [Stored.isIn] using isIn
      rw [here, found] at isTrack
      cases isTrack
      exact ⟨movement, List.mem_of_getElem? isMovement, passes⟩
  · rintro ⟨movement, member, passes⟩
    rcases List.getElem?_of_mem member with ⟨index, isMovement⟩
    have stored := mem_storedMovements.mpr
      ⟨number, track, index, movement, found, isMovement, rfl⟩
    exact ⟨_, named.mem_iff.mpr (.inr stored), by simp [Stored.isIn], passes⟩

theorem NamedBy.any_isIn (named : score.NamedBy written) {number : Nat} {track : Track}
    (found : score.tracks[number]? = some track) (key : String) :
    (written.any fun other => other.isIn (number + 1) && other.name = key) =
      track.movements.any fun movement => movement.key = key := by
  have same := named.exists_isIn_iff found fun name _ => name = key
  rw [Bool.eq_iff_iff, List.any_eq_true, List.any_eq_true]
  simpa using same

end Score

/-! ### The problem of a definition -/

/-- A problem about names at a place. -/
def Diagnostic.isNamingAt (position : Position) (diagnostic : Diagnostic) : Bool :=
  diagnostic.kind = .naming && diagnostic.position = position

namespace Score

variable {score : Score} {written : List Stored}

/-- The score has one problem about names with a definition that repeats an earlier one, and
none with any other. -/
theorem countP_problem? (named : score.NamedBy written) {statement : Statement} {stored : Stored}
    (stores : score.storing statement = some stored) :
    (score.problem? statement).toList.countP (Diagnostic.isNamingAt stored.token.position) =
      (stored.isRepeat written).toNat := by
  cases statement with
  | metadata entry keyword => contradiction
  | track name => contradiction
  | definition added =>
      rw [← Option.some.inj stores]
      unfold problem? addMacro NameTable.define Stored.isRepeat
      dsimp only
      rw [named.names, Stored.meaning, ← List.isSome_find?]
      cases written.find? fun other => other.name = added.name with
      | none => rfl
      | some other => simp [Diagnostic.isNamingAt, Diagnostic.namingAt, Diagnostic.kind]
  | movement added =>
      rcases Option.map_eq_some_iff.mp stores with ⟨track, latest, rfl⟩
      have positive : score.tracks.length - 1 + 1 = score.tracks.length := by
        cases tracks : score.tracks with
        | nil =>
            rw [tracks] at latest
            contradiction
        | cons first rest => simp
      have last : score.tracks[score.tracks.length - 1]? = some track := by
        rw [← List.getLast?_eq_getElem?]
        exact latest
      have inTrack := named.any_isIn last added.key
      rw [positive] at inTrack
      unfold problem? addMovement nameMovement NameTable.define Stored.isRepeat
      rw [latest]
      dsimp only
      rw [inTrack, named.names, Stored.meaning, ← List.isSome_find?]
      cases track.movements.find? fun other => other.key = added.key with
      | some other => simp [Diagnostic.isNamingAt, Diagnostic.namingAt, Diagnostic.kind]
      | none =>
          cases written.find? fun other => other.name = added.key with
          | none => rfl
          | some other =>
              cases entry : other.entry with
              | macroAt index =>
                  simp [Stored.isMacro, entry, Diagnostic.isNamingAt, Diagnostic.namingAt,
                    Diagnostic.kind]
              | movementAt number index => simp [Stored.isMacro, entry]

/-- A definition is stored with the token that its statement begins with. -/
theorem token_of_storing {tokens : List Token} {first behind : Nat} {statement : Statement}
    {stored : Stored} (stores : score.storing statement = some stored)
    (occupies : statement.Occupies tokens first behind) :
    tokens[first]? = some stored.token := by
  cases statement with
  | metadata entry keyword => contradiction
  | track name => contradiction
  | definition added =>
      rw [← Option.some.inj stores]
      exact occupies.1
  | movement added =>
      rcases Option.map_eq_some_iff.mp stores with ⟨track, latest, rfl⟩
      exact occupies.1

/-- What is not stored has no problem with its name. -/
theorem kind_of_problem? {statement : Statement} (unstored : score.storing statement = none)
    {diagnostic : Diagnostic} (problem : score.problem? statement = some diagnostic) :
    diagnostic.kind ≠ .naming := by
  cases statement with
  | metadata entry keyword => contradiction
  | track name => contradiction
  | definition added => contradiction
  | movement added =>
      have unopened : score.tracks.getLast? = none := Option.map_eq_none_iff.mp unstored
      unfold problem? addMovement at problem
      dsimp only at problem
      rw [unopened] at problem
      rw [← Option.some.inj problem]
      exact fun same => by cases same

end Score

/-! ### Problems about names by their places -/

/-- All problems about names are at tokens from the first place on, in front of the last one. -/
def NamesWithin (tokens : List Token) (first behind : Nat) (reported : List Diagnostic) : Prop :=
  ∀ diagnostic ∈ reported, diagnostic.kind = .naming → ∃ place token, first ≤ place ∧
    place < behind ∧ tokens[place]? = some token ∧ diagnostic.position = token.position

section Places

variable {tokens : List Token} {first behind place : Nat} {reported others : List Diagnostic}

theorem Token.Ordered.before {token other : Token} {later : Nat} (ordered : Token.Ordered tokens)
    (here : tokens[place]? = some token) (there : tokens[later]? = some other)
    (onward : place < later) : token.position.Before other.position := by
  rcases List.getElem?_eq_some_iff.mp here with ⟨bound, rfl⟩
  rcases List.getElem?_eq_some_iff.mp there with ⟨laterBound, rfl⟩
  exact List.pairwise_iff_getElem.mp ordered.places place later bound laterBound onward

theorem NamesWithin.of_marks
    (marks : ∀ diagnostic ∈ reported, diagnostic.Marks tokens first behind) :
    NamesWithin tokens first behind reported := by
  intro diagnostic member isNaming
  cases marks diagnostic member with
  | syntactic problem => contradiction
  | @naming token place problem here onward before =>
      exact ⟨place, token, onward, before, here, rfl⟩

theorem NamesWithin.mono {earlier later : Nat} (within : NamesWithin tokens first behind reported)
    (before : earlier ≤ first) (onward : behind ≤ later) :
    NamesWithin tokens earlier later reported := by
  intro diagnostic member isNaming
  rcases within diagnostic member isNaming with ⟨place, token, start, ends, known⟩
  exact ⟨place, token, by omega, by omega, known⟩

theorem NamesWithin.append (within : NamesWithin tokens first behind reported)
    (more : NamesWithin tokens first behind others) :
    NamesWithin tokens first behind (reported ++ others) := by
  intro diagnostic member isNaming
  rcases List.mem_append.mp member with early | late
  · exact within diagnostic early isNaming
  · exact more diagnostic late isNaming

/-- Other problems may stand between them. -/
theorem NamesWithin.insert {found ended : List Diagnostic}
    (within : NamesWithin tokens first behind (found ++ ended))
    (more : NamesWithin tokens first behind others) :
    NamesWithin tokens first behind (found ++ others ++ ended) := by
  intro diagnostic member isNaming
  simp only [List.mem_append] at member
  rcases member with (inFound | isOther) | inEnded
  · exact within diagnostic (List.mem_append_left _ inFound) isNaming
  · exact more diagnostic isOther isNaming
  · exact within diagnostic (List.mem_append_right _ inEnded) isNaming

/-- The problem of a statement is at its first token. -/
theorem NamesWithin.of_problem {score : Score} {statement : Statement}
    (occupies : statement.Occupies tokens place behind) :
    NamesWithin tokens place (place + 1) (score.problem? statement).toList := by
  intro diagnostic member isNaming
  rcases occupies.exists_token_of_problem? (Option.mem_toList.mp member) with ⟨token, there, same⟩
  exact ⟨place, token, Nat.le_refl _, Nat.lt_succ_self _, there, same⟩

/-- No problem about names is at a token outside. -/
theorem NamesWithin.countP_eq_zero (ordered : Token.Ordered tokens)
    (within : NamesWithin tokens first behind reported) {token : Token}
    (here : tokens[place]? = some token) (outside : place < first ∨ behind ≤ place) :
    reported.countP (Diagnostic.isNamingAt token.position) = 0 := by
  rw [List.countP_eq_zero]
  intro diagnostic member isHere
  simp only [Diagnostic.isNamingAt, Bool.and_eq_true, decide_eq_true_eq] at isHere
  rcases within diagnostic member isHere.1 with ⟨other, marked, start, ends, there, same⟩
  have samePosition : token.position = marked.position := isHere.2.symm.trans same
  rcases outside with before | past
  · exact (ordered.before here there (by omega)).ne samePosition
  · exact (ordered.before there here (by omega)).ne samePosition.symm

/-- Problems that are elsewhere do not count. -/
theorem countP_insert {found ended : List Diagnostic} {test : Diagnostic → Bool}
    (nowhere : (found ++ ended).countP test = 0) :
    (reported ++ (found ++ others ++ ended)).countP test =
      reported.countP test + others.countP test := by
  simp only [List.countP_append] at nowhere ⊢
  omega

end Places

/-! ### Every definition that was read -/

/-- What is known of the definitions that were read up to a place: their names stand in front of
it, in their order, and each has its problem exactly if it repeats an earlier one. -/
structure Judged (tokens : List Token) (place : Nat) (score : Score)
    (reported : List Diagnostic) (written : List Stored) : Prop where
  named : score.NamedBy written
  lies : ∀ stored ∈ written, ∃ start < place, tokens[start]? = some stored.token
  ordered : written.Pairwise fun earlier later =>
    earlier.token.position.Before later.token.position
  within : NamesWithin tokens 0 place reported
  counted : ∀ earlier stored later, written = earlier ++ stored :: later →
    reported.countP (Diagnostic.isNamingAt stored.token.position) =
      (stored.isRepeat earlier).toNat

namespace Judged

variable {tokens : List Token} {place behind : Nat} {score : Score}
variable {reported found : List Diagnostic} {written : List Stored}

/-- What is reported behind all definitions, and at none of them, changes nothing. -/
theorem report (judged : Judged tokens place score reported written)
    (sorted : Token.Ordered tokens) {other : Score} (named : other.NamedBy written)
    (onward : place ≤ behind) (within : NamesWithin tokens place behind found) :
    Judged tokens behind other (reported ++ found) written where
  named := named
  lies stored member := by
    rcases judged.lies stored member with ⟨start, before, here⟩
    exact ⟨start, by omega, here⟩
  ordered := judged.ordered
  within := (judged.within.mono (Nat.le_refl _) onward).append (within.mono (Nat.zero_le _)
    (Nat.le_refl _))
  counted earlier stored later same := by
    have member : stored ∈ written := by
      rw [same]
      exact List.mem_append_right _ List.mem_cons_self
    rcases judged.lies stored member with ⟨start, before, here⟩
    rw [List.countP_append, judged.counted earlier stored later same,
      within.countP_eq_zero sorted here (.inl before)]
    rfl

/-- A definition that is stored has its problem exactly if it repeats an earlier one. -/
theorem store (judged : Judged tokens place score reported written)
    (sorted : Token.Ordered tokens) {statement : Statement} {stored : Stored}
    {ended : List Diagnostic} (stores : score.storing statement = some stored)
    (occupies : statement.Occupies tokens place behind) (onward : place < behind)
    (within : NamesWithin tokens (place + 1) behind (found ++ ended)) :
    Judged tokens behind (score.extended statement)
      (reported ++ (found ++ (score.problem? statement).toList ++ ended))
      (written ++ [stored]) := by
  have here := Score.token_of_storing stores occupies
  have problem : NamesWithin tokens place (place + 1) (score.problem? statement).toList :=
    .of_problem occupies
  constructor
  case named =>
    have named := judged.named.extended statement
    rw [stores] at named
    exact named
  case lies =>
    intro other member
    rcases List.mem_append.mp member with early | latest
    · rcases judged.lies other early with ⟨start, before, there⟩
      exact ⟨start, by omega, there⟩
    · rw [List.mem_singleton.mp latest]
      exact ⟨place, onward, here⟩
  case ordered =>
    apply List.pairwise_append.mpr
    refine ⟨judged.ordered, List.pairwise_singleton _ _, ?_⟩
    intro other member latest isLatest
    rcases judged.lies other member with ⟨start, before, there⟩
    rw [List.mem_singleton.mp isLatest]
    exact sorted.before there here before
  case within =>
    have start := judged.within.mono (Nat.le_refl 0) (Nat.le_of_lt onward)
    have added := problem.mono (Nat.zero_le place) onward
    have others := within.mono (Nat.zero_le _) (Nat.le_refl _)
    exact start.append (others.insert added)
  case counted =>
    intro earlier other later same
    rcases List.eq_nil_or_concat later with rfl | ⟨between, latest, rfl⟩
    · -- The definition is the latest one.
      rcases List.append_inj' same rfl with ⟨rfl, isLatest⟩
      cases isLatest
      have fresh := judged.within.countP_eq_zero sorted here (.inr (Nat.le_refl _))
      have nowhere := within.countP_eq_zero sorted here (.inl (Nat.lt_succ_self _))
      rw [countP_insert nowhere, fresh, Nat.zero_add]
      exact Score.countP_problem? judged.named stores
    · rw [List.concat_eq_append, ← List.cons_append, ← List.append_assoc] at same
      have known := (List.append_inj' same rfl).1
      have member : other ∈ written := by
        rw [known]
        exact List.mem_append_right _ List.mem_cons_self
      rcases judged.lies other member with ⟨start, before, there⟩
      have nowhere := within.countP_eq_zero sorted there (.inl (by omega))
      have apart := problem.countP_eq_zero sorted there (.inl before)
      rw [countP_insert nowhere, apart, Nat.add_zero]
      exact judged.counted earlier other between known

/-- A trace of sorted tokens makes a score whose definitions are judged. -/
theorem exists_of_trace {opened : Score} {stretches : List Reading.Stretch}
    (sorted : Token.Ordered tokens) (unnamed : opened.NamedBy [])
    (trace : Trace tokens opened stretches place score reported) :
    ∃ written, Judged tokens place score reported written := by
  induction trace with
  | start =>
      refine ⟨[], unnamed, by simp, .nil, fun diagnostic member => by contradiction, ?_⟩
      intro earlier stored later same
      simp at same
  | separated _ _ _ inductionHypothesis =>
      rcases inductionHypothesis with ⟨written, judged⟩
      have passed := judged.report sorted judged.named (Nat.le_succ _)
        fun diagnostic member => absurd member List.not_mem_nil
      rw [List.append_nil] at passed
      exact ⟨written, passed⟩
  | refused _ onward _ marks inductionHypothesis =>
      rcases inductionHypothesis with ⟨written, judged⟩
      have within := (NamesWithin.of_marks marks).mono (Nat.le_succ _) (Nat.le_refl _)
      exact ⟨written, judged.report sorted judged.named (Nat.le_of_lt onward) within⟩
  | @added _ first behind score statement reported found ended _ onward occupies marks
      inductionHypothesis =>
      rcases inductionHypothesis with ⟨written, judged⟩
      have within := NamesWithin.of_marks marks
      cases stores : score.storing statement with
      | some stored =>
          exact ⟨written ++ [stored], judged.store sorted stores occupies onward within⟩
      | none =>
          have named := judged.named.extended statement
          rw [stores, Option.toList_none, List.append_nil] at named
          have others := within.mono (Nat.le_succ _) (Nat.le_refl _)
          have problem : NamesWithin tokens first behind (score.problem? statement).toList :=
            fun diagnostic member isNaming =>
              absurd isNaming (Score.kind_of_problem? stores (Option.mem_toList.mp member))
          exact ⟨written,
            judged.report sorted named (Nat.le_of_lt onward) (others.insert problem)⟩

end Judged

end Solfege
