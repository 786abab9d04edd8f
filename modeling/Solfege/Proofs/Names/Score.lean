import Solfege.Proofs.Names.Table
import Solfege.Proofs.Reading.Statement

/-!
Contract: the names of a score that was read stand for its definitions, the first of each
name.

Owns:
- the definitions that a score stores, each with its place;
- the order in which they were written, as an order of the tokens of their names;
- the meaning that a list of definitions gives to a name;
- the proof that each statement keeps the table of names in step with the definitions.

Does not own: what use is made of a name.
-/

namespace Solfege

open NameTable (Entry)

/-- A definition that is stored: the name that it bears, its place, and the token that its
name was written with. -/
structure Stored where
  name : String
  entry : Entry
  token : Token

namespace Stored

def isMacro (stored : Stored) : Bool :=
  match stored.entry with
  | .macroAt _ => true
  | .movementAt _ _ => false

/-- What the first definition of a name makes it stand for. -/
def meaning (written : List Stored) (name : String) : Option Entry :=
  (written.find? fun stored => stored.name = name).map entry

theorem meaning_concat (written : List Stored) (latest : Stored) (name : String) :
    meaning (written ++ [latest]) name =
      (meaning written name).or (if latest.name = name then some latest.entry else none) := by
  unfold meaning
  rw [List.find?_append]
  cases written.find? fun stored => stored.name = name with
  | some earlier => rfl
  | none =>
      by_cases same : latest.name = name
      · simp [same]
      · simp [same]

theorem exists_of_meaning {written : List Stored} {name : String} {entry : Entry}
    (means : meaning written name = some entry) :
    ∃ stored ∈ written, stored.name = name ∧ stored.entry = entry := by
  obtain ⟨stored, found, same⟩ := Option.map_eq_some_iff.mp means
  have named := List.find?_some found
  exact ⟨stored, List.mem_of_find?_eq_some found, by simpa using named, same⟩

theorem exists_meaning_of_mem {written : List Stored} {stored : Stored}
    (member : stored ∈ written) : ∃ entry, meaning written stored.name = some entry := by
  have found : (written.find? fun other => other.name = stored.name).isSome = true := by
    rw [List.find?_isSome]
    exact ⟨stored, member, decide_eq_true rfl⟩
  obtain ⟨first, isFirst⟩ := Option.isSome_iff_exists.mp found
  exact ⟨first.entry, by rw [meaning, isFirst, Option.map_some]⟩

/-- The name of the definition is a token, behind which its sign stands: that of a macro,
or that of a movement. -/
def StandsAt (stored : Stored) (first : Token) (behind : List Token) : Prop :=
  stored.token = first ∧
    if stored.isMacro then
      Reading.SignIs behind .equals ∨ Reading.SignIs behind .leftParen
    else
      Reading.SignIs behind .string ∨ Reading.SignIs behind .colon

/-- The definitions are written in a list of tokens, one behind the other. -/
inductive Written : List Stored → List Token → Prop where
  | nil (tokens : List Token) : Written [] tokens
  | cons {stored : Stored} {others : List Stored} {skipped behind : List Token}
      {first : Token} (stands : stored.StandsAt first behind) (rest : Written others behind) :
      Written (stored :: others) (skipped ++ first :: behind)

theorem Written.of_suffix {written : List Stored} {left tokens : List Token}
    (isWritten : Written written left) (suffix : left <:+ tokens) : Written written tokens := by
  obtain ⟨skipped, rfl⟩ := suffix
  cases isWritten with
  | nil => exact .nil _
  | cons stands rest =>
      rw [← List.append_assoc]
      exact .cons stands rest

end Stored

/-! ### What a score stores -/

/-- The movements of a track that is the one of a number, each with its place. -/
def Track.stored (track : Track) (number : Nat) : List Stored :=
  track.movements.mapIdx fun index movement =>
    ⟨movement.key, .movementAt number (index + 1), movement.token⟩

namespace Score

/-- The macros, each with its place. -/
def storedMacros (score : Score) : List Stored :=
  score.macros.mapIdx fun index definition =>
    ⟨definition.name, .macroAt (index + 1), definition.token⟩

/-- The movements of all tracks, each with its place. -/
def storedMovements (score : Score) : List Stored :=
  (score.tracks.mapIdx fun index track => track.stored (index + 1)).flatten

/-- What the score comes to store with a statement. -/
def storing (score : Score) : Reading.Statement → Option Stored
  | .definition added =>
      some ⟨added.name, .macroAt (score.macros.length + 1), added.token⟩
  | .movement added =>
      score.tracks.getLast?.map fun track =>
        ⟨added.key, .movementAt score.tracks.length (track.movements.length + 1), added.token⟩
  | .metadata _ _ => none
  | .track _ => none

theorem storedMacros_addMacro (score : Score) (added : Macro) :
    (score.addMacro added).1.storedMacros = score.storedMacros ++
      [⟨added.name, .macroAt (score.macros.length + 1), added.token⟩] := by
  unfold storedMacros
  rw [macros_addMacro, List.mapIdx_concat]

theorem storedMovements_addMovement {score : Score} {track : Track} {earlier : List Track}
    (opened : score.tracks = earlier ++ [track]) (added : Movement) :
    (score.addMovement added).1.storedMovements = score.storedMovements ++
      [⟨added.key, .movementAt score.tracks.length (track.movements.length + 1),
        added.token⟩] := by
  unfold storedMovements
  rw [tracks_addMovement opened, opened, List.mapIdx_concat, List.mapIdx_concat,
    List.flatten_concat, List.flatten_concat, List.append_assoc, List.length_append]
  unfold Track.stored Track.add
  rw [List.mapIdx_concat]
  rfl

/-! ### The names of a definition -/

theorem names_addMacro (score : Score) (added : Macro) :
    (score.addMacro added).1.names =
      score.names.keepingFirst added.name (.macroAt (score.macros.length + 1)) := by
  unfold addMacro NameTable.keepingFirst
  dsimp only
  cases score.names.define added.name (.macroAt (score.macros.length + 1)) <;> rfl

/-- A movement whose key occurs in its track is not named again. -/
theorem names_addMovement {score : Score} {track : Track} {earlier : List Track}
    (opened : score.tracks = earlier ++ [track]) (added : Movement) :
    (∃ other ∈ track.movements, other.key = added.key ∧
        (score.addMovement added).1.names = score.names) ∨
      (score.addMovement added).1.names = score.names.keepingFirst added.key
        (.movementAt score.tracks.length (track.movements.length + 1)) := by
  unfold addMovement nameMovement NameTable.keepingFirst
  rw [opened, List.getLast?_concat]
  dsimp only
  cases found : track.movements.find? fun other => other.key = added.key with
  | some other =>
      have sameKey := List.find?_some found
      exact .inl ⟨other, List.mem_of_find?_eq_some found, by simpa using sameKey, rfl⟩
  | none =>
      right
      dsimp only
      cases defined : score.names.define added.key
          (.movementAt (earlier ++ [track]).length (track.movements.length + 1)) with
      | ok names => rfl
      | error existing => cases existing <;> rfl

/-- The table of the score gives each name the meaning that the definitions, in the order
in which they were written, give it. They are the definitions that the score stores. -/
structure NamedBy (score : Score) (written : List Stored) : Prop where
  macros : written.filter Stored.isMacro = score.storedMacros
  movements : written.filter (fun stored => !stored.isMacro) = score.storedMovements
  names : ∀ name, score.names.get? name = Stored.meaning written name
  faithful : score.names.Faithful

theorem NamedBy.mem_movements {score : Score} {written : List Stored}
    (named : score.NamedBy written) {track : Track} {movement : Movement}
    (trackMember : track ∈ score.tracks) (member : movement ∈ track.movements) :
    ∃ stored ∈ written, stored.name = movement.key := by
  obtain ⟨number, numberBound, rfl⟩ := List.getElem_of_mem trackMember
  obtain ⟨index, indexBound, rfl⟩ := List.getElem_of_mem member
  have isStored : (⟨score.tracks[number].movements[index].key,
      .movementAt (number + 1) (index + 1), score.tracks[number].movements[index].token⟩ :
        Stored) ∈ score.storedMovements := by
    refine List.mem_flatten.mpr ⟨_, List.mem_mapIdx.mpr ⟨number, numberBound, rfl⟩, ?_⟩
    exact List.mem_mapIdx.mpr ⟨index, indexBound, rfl⟩
  rw [← named.movements] at isStored
  exact ⟨_, (List.mem_filter.mp isStored).1, rfl⟩

theorem NamedBy.addMacro {score : Score} {written : List Stored}
    (named : score.NamedBy written) (added : Macro) :
    (score.addMacro added).1.NamedBy (written ++
      [⟨added.name, .macroAt (score.macros.length + 1), added.token⟩]) where
  macros := by
    rw [List.filter_append, named.macros, storedMacros_addMacro]
    rfl
  movements := by
    rw [List.filter_append, named.movements]
    unfold storedMovements
    rw [tracks_addMacro]
    exact List.append_nil _
  names name := by
    rw [names_addMacro, NameTable.get?_keepingFirst, Stored.meaning_concat, named.names]
  faithful := by
    rw [names_addMacro]
    exact named.faithful.keepingFirst _ _

theorem NamedBy.addMovement {score : Score} {written : List Stored}
    (named : score.NamedBy written) {track : Track} {earlier : List Track}
    (opened : score.tracks = earlier ++ [track]) (added : Movement) :
    (score.addMovement added).1.NamedBy (written ++
      [⟨added.key, .movementAt score.tracks.length (track.movements.length + 1),
        added.token⟩]) where
  macros := by
    rw [List.filter_append, named.macros]
    unfold storedMacros
    rw [macros_addMovement]
    exact List.append_nil _
  movements := by
    rw [List.filter_append, named.movements, storedMovements_addMovement opened]
    rfl
  names name := by
    rw [Stored.meaning_concat]
    rcases names_addMovement opened added with ⟨other, member, sameKey, same⟩ | same
    · -- The key is that of a stored movement, so it has a meaning already.
      obtain ⟨stored, storedMember, storedName⟩ :=
        named.mem_movements (opened ▸ List.mem_concat_self) member
      obtain ⟨entry, means⟩ := Stored.exists_meaning_of_mem storedMember
      rw [storedName, sameKey] at means
      rw [same, named.names]
      by_cases here : added.key = name
      · rw [← here, means, Option.some_or]
      · rw [if_neg here, Option.or_none]
    · rw [same, NameTable.get?_keepingFirst, named.names]
  faithful := by
    rcases names_addMovement opened added with ⟨_, _, _, same⟩ | same
    · rw [same]
      exact named.faithful
    · rw [same]
      exact named.faithful.keepingFirst _ _

theorem NamedBy.extended {score : Score} {written : List Stored}
    (named : score.NamedBy written) (statement : Reading.Statement) :
    (score.extended statement).NamedBy (written ++ (score.storing statement).toList) := by
  cases statement with
  | metadata entry keyword =>
      rw [storing, Option.toList_none, List.append_nil]
      exact ⟨named.macros, named.movements, named.names, named.faithful⟩
  | track name =>
      rw [storing, Option.toList_none, List.append_nil]
      refine ⟨named.macros, ?_, named.names, named.faithful⟩
      rw [named.movements]
      unfold storedMovements Score.extended addTrack
      rw [List.mapIdx_concat, List.flatten_concat]
      exact (List.append_nil _).symm
  | definition added => exact named.addMacro added
  | movement added =>
      rcases List.eq_nil_or_concat score.tracks with unopened | ⟨earlier, track, opened⟩
      · rw [storing, unopened]
        change NamedBy (score.addMovement added).1 (written ++ [])
        rw [addMovement_of_tracks_nil unopened, List.append_nil]
        exact named
      · rw [List.concat_eq_append] at opened
        have latest : score.tracks.getLast? = some track := by
          rw [opened, List.getLast?_concat]
        rw [storing, latest]
        exact named.addMovement opened added

/-! ### The names of a score that was read -/

theorem standsAt_of_storing {score : Score} {statement : Reading.Statement} {stored : Stored}
    {first : Token} {behind : List Token} (stores : score.storing statement = some stored)
    (begins : statement.Begins first behind) : stored.StandsAt first behind := by
  cases statement with
  | metadata entry keyword => contradiction
  | track name => contradiction
  | definition added =>
      obtain ⟨token, _, sign⟩ := begins
      rw [← Option.some.inj stores]
      exact ⟨token, sign⟩
  | movement added =>
      obtain ⟨token, _, sign⟩ := begins
      obtain ⟨track, _, rfl⟩ := Option.map_eq_some_iff.mp stores
      exact ⟨token, sign⟩

theorem namedBy_opened (tokens : List Token) (trackName : String) :
    (opened tokens trackName).NamedBy [] := by
  unfold opened
  split
  · exact ⟨rfl, rfl, fun _ => rfl, NameTable.faithful_empty⟩
  · exact ⟨rfl, rfl, fun _ => rfl, NameTable.faithful_empty⟩

/-- Statements that stand in a list of tokens name what they store, in their order. -/
theorem NamedBy.exists_foldl {statements : List Reading.Statement} {tokens : List Token}
    (stand : Reading.Stand statements tokens) {score : Score} {earlier : List Stored}
    (named : score.NamedBy earlier) :
    ∃ written, (statements.foldl Score.extended score).NamedBy (earlier ++ written) ∧
      Stored.Written written tokens := by
  induction stand generalizing score earlier with
  | nil tokens =>
      refine ⟨[], ?_, .nil tokens⟩
      rw [List.append_nil]
      exact named
  | @cons statement others skipped behind left first begins onward rest inductionHypothesis =>
      obtain ⟨written, whole, isWritten⟩ := inductionHypothesis (named.extended statement)
      have isBehind := isWritten.of_suffix onward
      refine ⟨(score.storing statement).toList ++ written, ?_, ?_⟩
      · rw [← List.append_assoc]
        exact whole
      · cases stores : score.storing statement with
        | none =>
            refine isBehind.of_suffix ⟨skipped ++ [first], ?_⟩
            rw [List.append_assoc, List.singleton_append]
        | some stored => exact .cons (standsAt_of_storing stores begins) isBehind

/-! ### What an entry points at -/

/-- An entry points at a definition of the score, which bears a name. -/
def Defines (score : Score) (name : String) : Entry → Prop
  | .macroAt index =>
      0 < index ∧ ∃ definition,
        score.macros[index - 1]? = some definition ∧ definition.name = name
  | .movementAt number index =>
      0 < number ∧ 0 < index ∧ ∃ track movement,
        score.tracks[number - 1]? = some track ∧
          track.movements[index - 1]? = some movement ∧ movement.key = name

theorem defines_of_mem_storedMacros {score : Score} {stored : Stored}
    (member : stored ∈ score.storedMacros) : score.Defines stored.name stored.entry := by
  obtain ⟨index, bound, rfl⟩ := List.mem_mapIdx.mp member
  exact ⟨Nat.succ_pos index, _, List.getElem?_eq_getElem bound, rfl⟩

theorem defines_of_mem_storedMovements {score : Score} {stored : Stored}
    (member : stored ∈ score.storedMovements) : score.Defines stored.name stored.entry := by
  obtain ⟨inTrack, trackMember, storedMember⟩ := List.mem_flatten.mp member
  obtain ⟨number, numberBound, rfl⟩ := List.mem_mapIdx.mp trackMember
  obtain ⟨index, bound, rfl⟩ := List.mem_mapIdx.mp storedMember
  exact ⟨Nat.succ_pos number, Nat.succ_pos index, _, _,
    List.getElem?_eq_getElem numberBound, List.getElem?_eq_getElem bound, rfl⟩

theorem NamedBy.defines {score : Score} {written : List Stored}
    (named : score.NamedBy written) {name : String} {entry : Entry}
    (found : score.names.get? name = some entry) : score.Defines name entry := by
  rw [named.names] at found
  obtain ⟨stored, member, rfl, rfl⟩ := Stored.exists_of_meaning found
  by_cases isMacro : stored.isMacro = true
  · apply defines_of_mem_storedMacros
    rw [← named.macros]
    exact List.mem_filter.mpr ⟨member, isMacro⟩
  · apply defines_of_mem_storedMovements
    rw [← named.movements]
    exact List.mem_filter.mpr ⟨member, by simpa using isMacro⟩

/-- The table of a score that was read is that of the definitions written in it. -/
theorem exists_namedBy_of_read {tokens : List Token} {trackName : String} {score : Score}
    (wasRead : ofTokens tokens trackName = .ok score) : ∃ written, score.NamedBy written := by
  obtain ⟨statements, diagnostics, read, stand, _⟩ := exists_ofTokens_eq_ok tokens trackName
  obtain ⟨written, named, _⟩ := (namedBy_opened tokens trackName).exists_foldl stand
  rw [read] at wasRead
  rw [← Except.ok.inj wasRead]
  exact ⟨_, named.macros, named.movements, named.names, named.faithful⟩

end Score

end Solfege
