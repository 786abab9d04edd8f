import Solfege.Proofs.Provenance.Statement
import Solfege.Proofs.Reading.Rounds

/-!
Contract: where a score comes from.

Owns:
- the trace of a list of tokens: the statements read from it, each with the places that it
  occupies, and what was reported between them;
- the tracks that a list of statements makes;
- the proof that no token in front of the end of the file is passed over: it separates
  statements, or belongs to one that was read, or to one that was refused with a problem;
- the proof that a score holds what its statements say, in their order, that its bodies lie
  where they were read, and that every problem is at a token.

Does not own: which problems there are.
-/

namespace Solfege

open Expression (Placed)

namespace Reading

/-- All tokens that a reader is given: those of the list, and an end of file token behind them
where the list has none. -/
def whole (tokens : List Token) : List Token :=
  (ofTokens tokens).rest ++ [(ofTokens tokens).last]

/-- Only an end of file token is ever added. -/
theorem whole_eq (tokens : List Token) :
    (∃ final, tokens.getLast? = some final ∧ final.kind = .endOfFile ∧ whole tokens = tokens) ∨
      (∀ final, tokens.getLast? = some final → final.kind ≠ .endOfFile) ∧
        ∃ position, whole tokens = tokens ++ [Token.endOfFileAt position] := by
  rcases List.eq_nil_or_concat tokens with rfl | ⟨front, final, rfl⟩
  · exact .inr ⟨by simp, .start, rfl⟩
  rw [List.concat_eq_append]
  unfold whole ofTokens
  rw [List.getLast?_concat, List.dropLast_concat]
  dsimp only
  by_cases closing : final.kind = .endOfFile
  · rw [if_pos closing]
    exact .inl ⟨final, rfl, closing, rfl⟩
  · rw [if_neg closing]
    exact .inr ⟨by simp [closing], _, rfl⟩

theorem standsAt_ofTokens (tokens : List Token) : StandsAt (whole tokens) 0 (ofTokens tokens) :=
  ⟨rfl, closed_ofTokens tokens⟩

/-! ### Traces -/

/-- A statement with the places that it occupies. -/
structure Stretch where
  first : Nat
  behind : Nat
  statement : Statement

/-- The statements that were read up to a place, the score that they make, and all that was
reported. -/
inductive Trace (tokens : List Token) (opened : Score) :
    List Stretch → Nat → Score → List Diagnostic → Prop where
  | start : Trace tokens opened [] 0 opened []
  | separated {stretches : List Stretch} {place : Nat} {score : Score}
      {reported : List Diagnostic} {token : Token}
      (trace : Trace tokens opened stretches place score reported)
      (here : tokens[place]? = some token) (separates : separatesStatements token.kind = true) :
      Trace tokens opened stretches (place + 1) score reported
  | refused {stretches : List Stretch} {first behind : Nat} {score : Score}
      {reported found : List Diagnostic}
      (trace : Trace tokens opened stretches first score reported) (onward : first < behind)
      (loud : found ≠ [])
      (marks : ∀ diagnostic ∈ found, diagnostic.Marks tokens (first + 1) behind) :
      Trace tokens opened stretches behind score (reported ++ found)
  | added {stretches : List Stretch} {first behind : Nat} {score : Score} {statement : Statement}
      {reported found ended : List Diagnostic}
      (trace : Trace tokens opened stretches first score reported) (onward : first < behind)
      (occupies : statement.Occupies tokens first behind)
      (marks : ∀ diagnostic ∈ found ++ ended, diagnostic.Marks tokens (first + 1) behind) :
      Trace tokens opened (stretches ++ [⟨first, behind, statement⟩]) behind
        (score.extended statement)
        (reported ++ (found ++ (score.problem? statement).toList ++ ended))

variable {tokens : List Token} {opened : Score} {state next : Score × Reading}

/-- The reader stands behind a trace, which made the score and what was reported. -/
def Traces (tokens : List Token) (opened : Score) (stretches : List Stretch) (place : Nat)
    (state : Score × Reading) : Prop :=
  StandsAt tokens place state.2 ∧ Trace tokens opened stretches place state.1 state.2.diagnostics

theorem Traces.exists_round {stretches : List Stretch} {place : Nat}
    (traces : Traces tokens opened stretches place state) (round : Round state next) :
    ∃ longer reached, Traces tokens opened longer reached next := by
  rcases traces with ⟨stands, trace⟩
  cases round with
  | @skip score before separates =>
      have more : before.current.kind ≠ .endOfFile := by
        intro atEnd
        rw [atEnd] at separates
        contradiction
      have passed := (stands.advanced stands.current more).2
      exact ⟨stretches, place + 1, passed, trace.separated stands.current separates⟩
  | read apart more result =>
      rcases exists_outcome_of_readStatement stands more apart result with
        ⟨reached, reported, onward, there, diagnostics, outcome⟩
      cases outcome with
      | refused loud marks =>
          have refused := trace.refused onward loud marks
          rw [← diagnostics] at refused
          exact ⟨stretches, reached, there, refused⟩
      | @added read found ended occupies marks =>
          have added := trace.added onward occupies marks
          rw [← diagnostics] at added
          exact ⟨stretches ++ [⟨place, reached, read⟩], reached, there, added⟩

theorem Traces.exists_rounds {stretches : List Stretch} {place : Nat}
    (traces : Traces tokens opened stretches place state) (rounds : Rounds state next) :
    ∃ longer reached, Traces tokens opened longer reached next := by
  induction rounds with
  | refl => exact ⟨stretches, place, traces⟩
  | tail _ round inductionHypothesis =>
      rcases inductionHypothesis with ⟨_, _, known⟩
      exact known.exists_round round

/-! ### What a trace says -/

/-- Each statement occupies its stretch, and the next one begins behind it. -/
structure Laid (tokens : List Token) (stretches : List Stretch) : Prop where
  occupies : ∀ stretch ∈ stretches, stretch.first < stretch.behind ∧
    stretch.statement.Occupies tokens stretch.first stretch.behind
  apart : stretches.Pairwise fun earlier later => earlier.behind ≤ later.first

theorem Laid.exists_occupies {stretches : List Stretch} (laid : Laid tokens stretches) :
    ∀ statement ∈ stretches.map Stretch.statement,
      ∃ first behind, statement.Occupies tokens first behind := by
  intro statement member
  rcases List.mem_map.mp member with ⟨stretch, isStretch, rfl⟩
  exact ⟨stretch.first, stretch.behind, (laid.occupies stretch isStretch).2⟩

namespace Trace

variable {stretches : List Stretch} {place : Nat} {score : Score} {reported : List Diagnostic}

theorem behind_le (trace : Trace tokens opened stretches place score reported) :
    ∀ stretch ∈ stretches, stretch.behind ≤ place := by
  induction trace with
  | start => exact List.forall_mem_nil _
  | separated _ _ _ inductionHypothesis =>
      exact fun stretch member => Nat.le_succ_of_le (inductionHypothesis stretch member)
  | refused _ onward _ _ inductionHypothesis =>
      intro stretch member
      exact Nat.le_trans (inductionHypothesis stretch member) (Nat.le_of_lt onward)
  | added _ onward _ _ inductionHypothesis =>
      intro stretch member
      rcases List.mem_append.mp member with early | latest
      · have known := inductionHypothesis stretch early
        omega
      · rw [List.mem_singleton.mp latest]

theorem laid (trace : Trace tokens opened stretches place score reported) :
    Laid tokens stretches := by
  induction trace with
  | start => exact ⟨List.forall_mem_nil _, .nil⟩
  | separated _ _ _ inductionHypothesis => exact inductionHypothesis
  | refused _ _ _ _ inductionHypothesis => exact inductionHypothesis
  | added trace onward occupies _ inductionHypothesis =>
      constructor
      · intro stretch member
        rcases List.mem_append.mp member with early | latest
        · exact inductionHypothesis.occupies stretch early
        · rw [List.mem_singleton.mp latest]
          exact ⟨onward, occupies⟩
      · apply List.pairwise_append.mpr
        refine ⟨inductionHypothesis.apart, List.pairwise_singleton _ _, ?_⟩
        intro stretch member latest isLatest
        rw [List.mem_singleton.mp isLatest]
        exact trace.behind_le stretch member

/-- The score is what its statements make of it, one after the other. -/
theorem score_eq (trace : Trace tokens opened stretches place score reported) :
    score = (stretches.map Stretch.statement).foldl Score.extended opened := by
  induction trace with
  | start => rfl
  | separated _ _ _ inductionHypothesis => exact inductionHypothesis
  | refused _ _ _ _ inductionHypothesis => exact inductionHypothesis
  | added _ _ _ _ inductionHypothesis =>
      rw [List.map_append, List.foldl_append, ← inductionHypothesis]
      rfl

/-- Whatever is reported is at a token. -/
theorem exists_token (trace : Trace tokens opened stretches place score reported) :
    ∀ diagnostic ∈ reported, ∃ token ∈ tokens, diagnostic.position = token.position := by
  induction trace with
  | start => exact List.forall_mem_nil _
  | separated _ _ _ inductionHypothesis => exact inductionHypothesis
  | refused _ _ _ marks inductionHypothesis =>
      intro diagnostic member
      rcases List.mem_append.mp member with early | late
      · exact inductionHypothesis diagnostic early
      · exact (marks diagnostic late).exists_token
  | @added _ _ _ score read reported found ended _ _ occupies marks inductionHypothesis =>
      intro diagnostic member
      simp only [List.mem_append, Option.mem_toList] at member marks
      rcases member with early | (inFound | isProblem) | inEnded
      · exact inductionHypothesis diagnostic early
      · exact (marks diagnostic (.inl inFound)).exists_token
      · rcases occupies.exists_token_of_problem? isProblem with ⟨token, here, same⟩
        exact ⟨token, List.mem_of_getElem? here, same⟩
      · exact (marks diagnostic (.inr inEnded)).exists_token

end Trace

/-! ### No token is passed over -/

/-- The token at a place separates statements, or it is part of one that was read, or of one
that was refused with a problem and lies between those that were read. -/
inductive Covered (tokens : List Token) (stretches : List Stretch) (reported : List Diagnostic)
    (reached place : Nat) : Prop where
  | separator {token : Token} (here : tokens[place]? = some token)
      (separates : separatesStatements token.kind = true)
  | read {stretch : Stretch} (isStretch : stretch ∈ stretches) (begun : stretch.first ≤ place)
      (isWithin : place < stretch.behind)
  | refused {first behind : Nat} {diagnostic : Diagnostic} (begun : first ≤ place)
      (isWithin : place < behind) (le : behind ≤ reached)
      (apart : ∀ stretch ∈ stretches, stretch.behind ≤ first ∨ behind ≤ stretch.first)
      (isReported : diagnostic ∈ reported)

/-- Up to the end of the file, every token separates statements or is part of one. -/
def CoversAll (tokens : List Token) (stretches : List Stretch) (reported : List Diagnostic) :
    Prop :=
  ∃ reached final, tokens[reached]? = some final ∧ final.kind = .endOfFile ∧
    ∀ place < reached, Covered tokens stretches reported reached place

/-- What is covered stays so when more is read behind it. -/
theorem Covered.mono {stretches more : List Stretch} {reported : List Diagnostic}
    {reached later place : Nat} (covered : Covered tokens stretches reported reached place)
    (further : List Diagnostic) (onward : reached ≤ later) (behind : ∀ stretch ∈ more, reached ≤ stretch.first) :
    Covered tokens (stretches ++ more) (reported ++ further) later place := by
  cases covered with
  | separator here separates => exact .separator here separates
  | read isStretch begun isWithin =>
      exact .read (List.mem_append_left more isStretch) begun isWithin
  | refused begun isWithin le apart isReported =>
      refine .refused begun isWithin (Nat.le_trans le onward) ?_
        (List.mem_append_left further isReported)
      refine List.forall_mem_append.mpr ⟨apart, fun stretch isMore => .inr ?_⟩
      exact Nat.le_trans le (behind stretch isMore)

/-- The statements and problems of a trace cover all tokens in front of its place. -/
theorem Trace.covered {stretches : List Stretch} {reached : Nat} {score : Score}
    {reported : List Diagnostic}
    (trace : Trace tokens opened stretches reached score reported) :
    ∀ place < reached, Covered tokens stretches reported reached place := by
  induction trace with
  | start => exact fun place before => absurd before (Nat.not_lt_zero place)
  | @separated stretches first score reported token _ here separates inductionHypothesis =>
      intro place before
      rcases Nat.lt_succ_iff_lt_or_eq.mp before with early | rfl
      · have known := (inductionHypothesis place early).mono [] (Nat.le_succ first)
          (List.forall_mem_nil _)
        rwa [List.append_nil, List.append_nil] at known
      · exact .separator here separates
  | @refused stretches first behind score reported found trace onward loud _
      inductionHypothesis =>
      intro place before
      rcases Nat.lt_or_ge place first with early | late
      · have known := (inductionHypothesis place early).mono found (Nat.le_of_lt onward)
          (List.forall_mem_nil _)
        rwa [List.append_nil] at known
      · obtain ⟨diagnostic, member⟩ := List.exists_mem_of_ne_nil found loud
        exact .refused late before (Nat.le_refl _)
          (fun stretch isStretch => .inl (trace.behind_le stretch isStretch))
          (List.mem_append_right reported member)
  | @added stretches first behind score statement reported found ended _ onward _ _
      inductionHypothesis =>
      intro place before
      rcases Nat.lt_or_ge place first with early | late
      · exact (inductionHypothesis place early).mono _ (Nat.le_of_lt onward)
          (List.forall_mem_singleton.mpr (Nat.le_refl first))
      · exact .read (List.mem_append_right stretches (List.mem_singleton_self _)) late before

/-! ### The parts of a score -/

namespace Statement

def metadata? : Statement → Option Metadata
  | .metadata entry _ => some entry
  | _ => none

def macro? : Statement → Option Macro
  | .definition added => some added
  | _ => none

def movement? : Statement → Option Movement
  | .movement added => some added
  | _ => none

variable {statement : Statement}

theorem eq_of_macro? {added : Macro} (said : statement.macro? = some added) :
    statement = .definition added := by
  cases statement with
  | definition other => rw [Option.some.inj said]
  | _ => contradiction

theorem eq_of_movement? {added : Movement} (said : statement.movement? = some added) :
    statement = .movement added := by
  cases statement with
  | movement other => rw [Option.some.inj said]
  | _ => contradiction

/-- The movements in front of the next track. -/
def movementsAhead : List Statement → List Movement
  | [] => []
  | .track _ :: _ => []
  | .movement added :: rest => added :: movementsAhead rest
  | _ :: rest => movementsAhead rest

/-- The tracks that the statements open, each with the movements up to the next one. -/
def tracksOf : List Statement → List Track
  | [] => []
  | .track name :: rest => ⟨name, movementsAhead rest⟩ :: tracksOf rest
  | _ :: rest => tracksOf rest

/-- All movements are in front of the first track or in one of the tracks. -/
theorem movementsAhead_append (statements : List Statement) :
    movementsAhead statements ++ (tracksOf statements).flatMap Track.movements =
      statements.filterMap movement? := by
  induction statements with
  | nil => rfl
  | cons first rest inductionHypothesis =>
      cases first with
      | metadata entry keyword =>
          simpa [movementsAhead, tracksOf, movement?, List.filterMap_cons] using
            inductionHypothesis
      | track name =>
          simpa [movementsAhead, tracksOf, movement?, List.filterMap_cons] using
            inductionHypothesis
      | definition added =>
          simpa [movementsAhead, tracksOf, movement?, List.filterMap_cons] using
            inductionHypothesis
      | movement added =>
          simpa [movementsAhead, tracksOf, movement?, List.filterMap_cons] using
            inductionHypothesis

theorem tracksOf_of_no_track {statements : List Statement}
    (none : ∀ statement ∈ statements, ∀ name, statement ≠ .track name) :
    tracksOf statements = [] := by
  induction statements with
  | nil => rfl
  | cons first rest inductionHypothesis =>
      rcases List.forall_mem_cons.mp none with ⟨notTrack, others⟩
      cases first with
      | track name => exact absurd rfl (notTrack name)
      | _ => exact inductionHypothesis others

end Statement

end Reading

namespace Score

open Reading (Statement Stretch Laid Trace Traces CoversAll whole)

variable {score : Score}

theorem metadata_foldl (statements : List Statement) (score : Score) :
    (statements.foldl extended score).metadata =
      score.metadata ++ statements.filterMap Statement.metadata? := by
  induction statements generalizing score with
  | nil => exact (List.append_nil _).symm
  | cons first rest inductionHypothesis =>
      rw [List.foldl_cons, inductionHypothesis]
      cases first with
      | metadata entry keyword => simp [extended, addMetadata, Statement.metadata?]
      | track name => simp [extended, addTrack, Statement.metadata?, List.filterMap_cons]
      | definition added =>
          simp [extended, metadata_addMacro, Statement.metadata?, List.filterMap_cons]
      | movement added =>
          simp [extended, metadata_addMovement, Statement.metadata?, List.filterMap_cons]

theorem macros_foldl (statements : List Statement) (score : Score) :
    (statements.foldl extended score).macros =
      score.macros ++ statements.filterMap Statement.macro? := by
  induction statements generalizing score with
  | nil => exact (List.append_nil _).symm
  | cons first rest inductionHypothesis =>
      rw [List.foldl_cons, inductionHypothesis]
      cases first with
      | metadata entry keyword =>
          simp [extended, addMetadata, Statement.macro?, List.filterMap_cons]
      | track name => simp [extended, addTrack, Statement.macro?, List.filterMap_cons]
      | definition added => simp [extended, macros_addMacro, Statement.macro?]
      | movement added => simp [extended, macros_addMovement, Statement.macro?, List.filterMap_cons]

/-- Behind an open track the movements up to the next one join it. -/
theorem tracks_foldl (statements : List Statement) {score : Score} {earlier : List Track}
    {track : Track} (opened : score.tracks = earlier ++ [track]) :
    (statements.foldl extended score).tracks =
      earlier ++ { track with
        movements := track.movements ++ Statement.movementsAhead statements } ::
        Statement.tracksOf statements := by
  induction statements generalizing score earlier track with
  | nil =>
      rw [List.foldl_nil, opened, Statement.movementsAhead, List.append_nil]
      rfl
  | cons first rest inductionHypothesis =>
      rw [List.foldl_cons]
      cases first with
      | metadata entry keyword => exact inductionHypothesis opened
      | track name =>
          have reopened : (score.extended (.track name)).tracks =
              (earlier ++ [track]) ++ [⟨name, []⟩] := by
            simp [extended, addTrack, opened]
          rw [inductionHypothesis reopened, Statement.movementsAhead, Statement.tracksOf]
          simp
      | definition added =>
          exact inductionHypothesis ((tracks_addMacro score added).trans opened)
      | movement added =>
          have joined : (score.extended (.movement added)).tracks = earlier ++ [track.add added] :=
            tracks_addMovement opened added
          rw [inductionHypothesis joined, Track.add]
          simp [Statement.movementsAhead, Statement.tracksOf]

/-- In front of the first track no movement is stored. -/
theorem tracks_foldl_of_nil (statements : List Statement) {score : Score}
    (unopened : score.tracks = []) :
    (statements.foldl extended score).tracks = Statement.tracksOf statements := by
  induction statements generalizing score with
  | nil => exact unopened
  | cons first rest inductionHypothesis =>
      rw [List.foldl_cons]
      cases first with
      | metadata entry keyword => exact inductionHypothesis unopened
      | track name =>
          have opened : (score.extended (.track name)).tracks = [] ++ [⟨name, []⟩] := by
            simp [extended, addTrack, unopened]
          rw [tracks_foldl rest opened, Statement.tracksOf]
          rfl
      | definition added =>
          exact inductionHypothesis ((tracks_addMacro score added).trans unopened)
      | movement added =>
          have same := addMovement_of_tracks_nil unopened added
          have unchanged : (score.extended (.movement added)).tracks = [] := by
            rw [extended, same, unopened]
          rw [inductionHypothesis unchanged]
          rfl

/-! ### Where a score comes from -/

/-- Where a score that was read from a list of tokens comes from: it holds what its statements
say, in their order, its bodies lie where they were read, and every problem is at a token. -/
structure Provenance (score : Score) (tokens : List Token) (trackName : String)
    (stretches : List Stretch) : Prop where
  laid : Laid (whole tokens) stretches
  /-- No token is passed over in silence. -/
  covers : CoversAll (whole tokens) stretches score.diagnostics
  metadata : score.metadata =
    (stretches.map Stretch.statement).filterMap Statement.metadata?
  macros : score.macros = (stretches.map Stretch.statement).filterMap Statement.macro?
  /-- Each movement is in the track that was opened last before it. -/
  tracks : score.tracks =
    if tokens.any fun token => token.kind = .track then
      Statement.tracksOf (stretches.map Stretch.statement)
    else
      [⟨trackName, (stretches.map Stretch.statement).filterMap Statement.movement?⟩]
  /-- Only movements in front of the first track are not stored. -/
  movements : score.movements <:+
    (stretches.map Stretch.statement).filterMap Statement.movement?
  macroBodies : ∀ definition ∈ score.macros, Placed (whole tokens) definition.body
  movementBodies : ∀ movement ∈ score.movements, Placed (whole tokens) movement.expressions
  diagnostics : ∀ diagnostic ∈ score.diagnostics,
    ∃ token ∈ whole tokens, diagnostic.position = token.position

/-- Every list of tokens has a trace, up to the end of the file. -/
theorem exists_trace (tokens : List Token) (trackName : String) :
    ∃ filled reported stretches place,
      ofTokens tokens trackName = .ok { filled with diagnostics := reported } ∧
      Trace (whole tokens) (opened tokens trackName) stretches place filled reported ∧
      ∃ final, (whole tokens)[place]? = some final ∧ final.kind = .endOfFile := by
  rcases exists_rounds_ofTokens tokens trackName with ⟨filled, after, rounds, atEnd, read⟩
  have start : Traces (whole tokens) (opened tokens trackName) [] 0
      (opened tokens trackName, Reading.ofTokens tokens) := by
    refine ⟨Reading.standsAt_ofTokens tokens, ?_⟩
    rw [Reading.diagnostics_ofTokens]
    exact .start
  rcases start.exists_rounds rounds with ⟨stretches, place, stands, trace⟩
  exact ⟨filled, after.diagnostics, stretches, place, read, trace, _, stands.current, atEnd⟩

section Trace

variable {tokens : List Token} {trackName : String} {stretches : List Stretch} {place : Nat}
variable {reported : List Diagnostic}

/-- A statement opens a track only at a token that says so. -/
theorem not_track_of_laid (laid : Laid (whole tokens) stretches)
    (none : tokens.any (fun token => token.kind = .track) = false) :
    ∀ statement ∈ stretches.map Stretch.statement, ∀ name, statement ≠ .track name := by
  rintro statement member name rfl
  rcases laid.exists_occupies _ member with ⟨_, _, keyword, here, isTrack⟩
  have among := List.mem_of_getElem? here
  have given : keyword ∈ tokens := by
    rcases Reading.whole_eq tokens with ⟨_, _, _, same⟩ | ⟨_, position, same⟩
    · rwa [same] at among
    · rw [same] at among
      rcases List.mem_append.mp among with given | added
      · exact given
      · rw [List.mem_singleton.mp added] at isTrack
        contradiction
  have found : tokens.any (fun token => token.kind = .track) = true :=
    List.any_eq_true.mpr ⟨keyword, given, decide_eq_true isTrack⟩
  rw [none] at found
  contradiction

theorem metadata_of_trace
    (trace : Trace (whole tokens) (opened tokens trackName) stretches place score reported) :
    score.metadata = (stretches.map Stretch.statement).filterMap Statement.metadata? := by
  rw [trace.score_eq, metadata_foldl]
  unfold opened
  split <;> rfl

theorem macros_of_trace
    (trace : Trace (whole tokens) (opened tokens trackName) stretches place score reported) :
    score.macros = (stretches.map Stretch.statement).filterMap Statement.macro? := by
  rw [trace.score_eq, macros_foldl]
  unfold opened
  split <;> rfl

theorem tracks_of_trace
    (trace : Trace (whole tokens) (opened tokens trackName) stretches place score reported) :
    score.tracks =
      if tokens.any fun token => token.kind = .track then
        Statement.tracksOf (stretches.map Stretch.statement)
      else
        [⟨trackName, (stretches.map Stretch.statement).filterMap Statement.movement?⟩] := by
  rw [trace.score_eq]
  unfold opened
  cases any : tokens.any fun token => token.kind = .track with
  | true => exact tracks_foldl_of_nil _ rfl
  | false =>
      have noTrack := Statement.tracksOf_of_no_track (not_track_of_laid trace.laid any)
      have all := Statement.movementsAhead_append (stretches.map Stretch.statement)
      rw [noTrack, List.flatMap_nil, List.append_nil] at all
      rw [← all]
      have opened : (empty.addTrack trackName).tracks = [] ++ [⟨trackName, []⟩] := rfl
      refine (tracks_foldl (stretches.map Stretch.statement) opened).trans ?_
      rw [noTrack]
      rfl

/-- The movements of the tracks are all those behind the opening of the first one. -/
theorem movements_of_trace
    (trace : Trace (whole tokens) (opened tokens trackName) stretches place score reported) :
    score.movements <:+ (stretches.map Stretch.statement).filterMap Statement.movement? := by
  unfold movements
  rw [tracks_of_trace trace]
  split
  · rw [← Statement.movementsAhead_append]
    exact List.suffix_append _ _
  · simp

/-- Every macro that is stored was said by a statement. -/
theorem exists_occupies_of_macro
    (trace : Trace (whole tokens) (opened tokens trackName) stretches place score reported)
    {added : Macro} (member : added ∈ score.macros) :
    ∃ first behind, (Statement.definition added).Occupies (whole tokens) first behind := by
  rw [macros_of_trace trace] at member
  rcases List.mem_filterMap.mp member with ⟨statement, isStatement, said⟩
  rw [← Statement.eq_of_macro? said]
  exact trace.laid.exists_occupies statement isStatement

/-- Every movement that is stored was said by a statement. -/
theorem exists_occupies_of_movement
    (trace : Trace (whole tokens) (opened tokens trackName) stretches place score reported)
    {added : Movement} (member : added ∈ score.movements) :
    ∃ first behind, (Statement.movement added).Occupies (whole tokens) first behind := by
  have among := (movements_of_trace trace).subset member
  rcases List.mem_filterMap.mp among with ⟨statement, isStatement, said⟩
  rw [← Statement.eq_of_movement? said]
  exact trace.laid.exists_occupies statement isStatement

/-- A score comes from the tokens that it has a trace in, up to the end of the file. -/
theorem provenance_of_trace
    (trace : Trace (whole tokens) (opened tokens trackName) stretches place score reported)
    {final : Token} (last : (whole tokens)[place]? = some final)
    (ends : final.kind = .endOfFile) :
    { score with diagnostics := reported }.Provenance tokens trackName stretches := by
  have metadata := metadata_of_trace trace
  have macros := macros_of_trace trace
  have tracks := tracks_of_trace trace
  have movements := movements_of_trace trace
  refine ⟨trace.laid, ⟨place, final, last, ends, trace.covered⟩, metadata, macros, tracks,
    movements, ?_, ?_, trace.exists_token⟩
  · intro definition member
    rcases exists_occupies_of_macro trace member with ⟨_, _, _, _, _, lie⟩
    exact lie.placed
  · intro movement member
    rcases exists_occupies_of_movement trace member with ⟨_, _, _, _, _, lie⟩
    exact lie.placed

end Trace

/-- **A score comes from its tokens.** Whatever is wrong with them, each of them in front of the
end of the file separates statements, or belongs to a statement that was read or to one that
was refused with a problem. What the score holds stands in the order of its statements, each
movement in the track opened last before it; the places of the tokens in a body never go back,
and grow from one expression to the next; and every problem is reported at a token. -/
theorem ofTokens_provenance (tokens : List Token) (trackName : String) :
    ∃ score stretches, ofTokens tokens trackName = .ok score ∧
      score.Provenance tokens trackName stretches := by
  rcases exists_trace tokens trackName with
    ⟨filled, reported, stretches, place, read, trace, final, last, ends⟩
  exact ⟨_, stretches, read, provenance_of_trace trace last ends⟩

end Score

end Solfege
