import Solfege.Compiler
import Solfege.Proofs.Inlining.Noted
import Solfege.Proofs.Inlining.Truncation
import Solfege.Proofs.Inlining.Turn
import Solfege.Proofs.Repetition.Limit
import Mathlib.Data.List.Forall2

/-!
Contract: what the budget of a movement promises.

Owns:
- the bound that the budget sets on what a movement costs and on how long it gets;
- what a larger budget changes: movements only get longer, and a score that was expanded
  without problems stays the same.

Does not own: how a budget is spent step by step.

The budget counts notes, so a chord that every name in it left without notes is free. A
movement can hold any number of such chords over its budget, but nothing else, and only where a
chord of names alone is written.
-/

namespace Solfege

open Expression (Sounding Playable Settled)

namespace Inlining

/-! ### One list -/

variable {around : Surroundings} {list : List Expression}

theorem settled_ofList (around : Surroundings) (list : List Expression) :
    ∀ expression ∈ (ofList around list).emitted, Settled expression := by
  obtain ⟨added, gain⟩ := (ofList_course around list).gain
  rw [gain.emitted]
  intro expression member
  exact gain.settled expression (by simpa [start] using member)

/-- Everything that a list becomes was paid for out of the budget. -/
theorem chargeAll_ofList_le (around : Surroundings) (list : List Expression) :
    chargeAll (ofList around list).emitted ≤ around.limit := by
  obtain ⟨added, gain⟩ := (ofList_course around list).gain
  have emitted : (ofList around list).emitted = added := by
    rw [gain.emitted]
    exact List.append_nil added
  rw [emitted]
  rcases gain.afforded with nothing | affordable
  · rw [nothing]
    exact Nat.zero_le _
  · exact affordable

/-- Without problems the budget was enough. -/
theorem lasting_of_problems_eq_nil (silent : (ofList around list).problems = []) :
    (ofList around list).exhausted = false := by
  have course := ofList_course around list
  obtain ⟨_, quiet⟩ := course.quiet_of_problems_eq_nil silent
  by_contra exhausted
  rw [Bool.not_eq_false] at exhausted
  have more := course.failures_lt rfl exhausted
  omega

/-- What was inlined without problems is the same under a larger budget. -/
theorem ofList_of_le (around : Surroundings) {limit : Nat} (le : around.limit ≤ limit)
    (silent : (ofList around list).problems = []) :
    ofList (around.withLimit limit) list = ofList around list := by
  rcases ofList_abreast le list with same | stopped
  · exact same.symm
  · have lasting := lasting_of_problems_eq_nil silent
    rw [stopped.exhausted] at lasting
    contradiction

theorem emitted_suffix_of_le (around : Surroundings) {limit : Nat}
    (le : around.limit ≤ limit) (list : List Expression) :
    (ofList around list).emitted <:+ (ofList (around.withLimit limit) list).emitted := by
  rcases ofList_abreast le list with same | stopped
  · exact same ▸ List.suffix_rfl
  · exact stopped.kept

end Inlining

/-! ### Chords that are free -/

namespace Inlining

/-- Chords without notes are free, and nothing else is. -/
theorem cost_eq_zero_iff {expression : Expression} :
    cost expression = 0 ↔ expression.isNoteless = true := by
  cases expression with
  | chord members token => cases members <;> simp [cost, Expression.isNoteless]
  | hold inner token =>
      cases inner with
      | chord members place => cases members <;> simp [cost, Expression.isNoteless]
      | _ => simp [cost, Expression.isNoteless]
  | _ => simp [cost, Expression.isNoteless]

/-- What is not free costs at least one, so there is no more of it than a list costs. -/
theorem countP_noted_le_costAll (expressions : List Expression) :
    expressions.countP (fun expression => !expression.isNoteless) ≤
      costAll expressions := by
  induction expressions with
  | nil => exact Nat.le_refl _
  | cons expression rest inductionHypothesis =>
      rw [List.countP_cons, costAll_cons]
      by_cases noteless : expression.isNoteless = true
      · rw [if_neg (by simp [noteless])]
        omega
      · have paid := Nat.pos_of_ne_zero (mt cost_eq_zero_iff.mp noteless)
        rw [if_pos (by simp [noteless])]
        omega

end Inlining

/-! ### Movements -/

namespace Movement

theorem inlineMacros_of_le {score : Score} {small large : Nat} (le : small ≤ large)
    {movement : Movement} (silent : (movement.inlineMacros score small).2 = []) :
    movement.inlineMacros score large = movement.inlineMacros score small := by
  have same : Inlining.ofList (score.around large movement) movement.expressions =
      Inlining.ofList (score.around small movement) movement.expressions :=
    Inlining.ofList_of_le (score.around small movement) le silent
  unfold inlineMacros
  rw [same]

theorem costAll_inlineMacros_le (score : Score) (limit : Nat) (movement : Movement) :
    Inlining.costAll (movement.inlineMacros score limit).1.expressions ≤ limit := by
  change Inlining.costAll (Inlining.ofList (score.around limit movement)
    movement.expressions).emitted.reverse ≤ limit
  rw [Inlining.costAll_reverse]
  exact Nat.le_trans (Inlining.costAll_le_chargeAll _) (Inlining.chargeAll_ofList_le _ _)

/-- Everything but chords without notes fits into the budget. -/
theorem countP_noted_inlineMacros_le (score : Score) (limit : Nat) (movement : Movement) :
    (movement.inlineMacros score limit).1.expressions.countP
      (fun expression => !expression.isNoteless) ≤ limit :=
  Nat.le_trans (Inlining.countP_noted_le_costAll _)
    (movement.costAll_inlineMacros_le score limit)

/-- Where every chord that is written has a note of its own, no movement gets one without. -/
theorem countP_noteless_inlineMacros {score : Score} (noted : score.IsNoted) (limit : Nat)
    {movement : Movement} (member : movement ∈ score.movements) :
    (movement.inlineMacros score limit).1.expressions.countP Expression.isNoteless = 0 := by
  have emitted : Inlining.Noted
      (Inlining.ofList (score.around limit movement) movement.expressions) :=
    Inlining.ofList_noted noted.1 (noted.2 movement member)
  rw [List.countP_eq_zero]
  intro expression found
  rw [Expression.isNoteless_of_isNoted (emitted expression (List.mem_reverse.mp found))]
  exact Bool.false_ne_true

/-- The same movement, with the expressions that it begins with. -/
structure IsBeginningOf (short long : Movement) : Prop where
  instrument : short.instrument = long.instrument
  tag : short.tag = long.tag
  token : short.token = long.token
  expressions : short.expressions <+: long.expressions

theorem inlineMacros_isBeginningOf (score : Score) {small large : Nat} (le : small ≤ large)
    (movement : Movement) :
    (movement.inlineMacros score small).1.IsBeginningOf
      (movement.inlineMacros score large).1 where
  instrument := rfl
  tag := rfl
  token := rfl
  expressions :=
    List.reverse_prefix.mpr
      (Inlining.emitted_suffix_of_le (score.around small movement) le movement.expressions)

end Movement

/-! ### Scores -/

/-- The same track, with movements that are beginnings of its own. -/
structure Track.IsBeginningOf (short long : Track) : Prop where
  name : short.name = long.name
  movements : List.Forall₂ Movement.IsBeginningOf short.movements long.movements

theorem Track.inlineMacros_isBeginningOf (score : Score) {small large : Nat}
    (le : small ≤ large) (track : Track) :
    (track.inlineMacros score small).1.IsBeginningOf (track.inlineMacros score large).1 where
  name := by rw [Track.inlineMacros_name, Track.inlineMacros_name]
  movements := by
    rw [Track.inlineMacros_movements, Track.inlineMacros_movements,
      List.forall₂_map_left_iff, List.forall₂_map_right_iff, List.forall₂_same]
    exact fun movement _ => movement.inlineMacros_isBeginningOf score le

namespace Score

theorem inlineMacros_of_le {score : Score} {small large : Nat} (le : small ≤ large)
    (silent : (score.inlineMacros small).2 = []) :
    score.inlineMacros large = score.inlineMacros small := by
  have tracks : changeAll (Track.inlineMacros score large) score.tracks =
      changeAll (Track.inlineMacros score small) score.tracks := by
    rw [inlineMacros_eq] at silent
    apply changeAll_eq_of_silent _ (eraseDups_eq_nil_iff.mp silent)
    intro track _ trackSilent
    have movements := changeAll_eq_of_silent
      (fun _ _ => Movement.inlineMacros_of_le le) trackSilent
    unfold Track.inlineMacros
    rw [movements]
  rw [inlineMacros_eq, inlineMacros_eq, tracks]

theorem unroll_of_le {score : Score} {small large : Nat} (le : small ≤ large)
    (silent : (score.unroll small).2 = []) :
    score.unroll large = score.unroll small := by
  obtain ⟨macrosSilent, tracksSilent⟩ := List.append_eq_nil_iff.mp silent
  have macros : changeAll (Macro.unroll large) score.macros =
      changeAll (Macro.unroll small) score.macros := by
    apply changeAll_eq_of_silent _ macrosSilent
    intro definition _ bodySilent
    unfold Macro.unroll
    rw [Expression.unroll_of_le le bodySilent]
  have tracks : changeAll (Track.unroll large) score.tracks =
      changeAll (Track.unroll small) score.tracks := by
    apply changeAll_eq_of_silent _ tracksSilent
    intro track _ trackSilent
    have movements : changeAll (Movement.unroll large) track.movements =
        changeAll (Movement.unroll small) track.movements := by
      apply changeAll_eq_of_silent _ trackSilent
      intro movement _ listSilent
      unfold Movement.unroll
      rw [Expression.unroll_of_le le listSilent]
    unfold Track.unroll
    rw [movements]
  unfold unroll
  rw [macros, tracks]

/-- A score that was expanded without problems stays the same under a larger limit. -/
theorem expand_of_le {score : Score} {small large : Nat} (le : small ≤ large)
    (silent : (score.expand small).2 = []) :
    score.expand large = score.expand small := by
  have unrolled := unroll_silent_of_expand silent
  rw [expand_of_silent unrolled] at silent ⊢
  have same := unroll_of_le le unrolled
  rw [expand_of_silent (same ▸ unrolled), same]
  exact inlineMacros_of_le le silent

end Score

/-! ### Silent chords -/

namespace SilentChord

/-- The token of everything in the examples of this section. -/
def token : Token := ⟨"m", .word, ⟨1, 1⟩⟩

/-- A chord of two names that both stand for nothing. -/
def written : Expression := .chord [.reference "m" token, .reference "m" token] token

/-- A score with one movement, which consists of such chords. -/
def score (count : Nat) : Score where
  metadata := []
  macros := [⟨"m", [], [], token⟩]
  tracks := [⟨"global", [⟨"piano", none, List.replicate count written, token⟩]⟩]
  names := ⟨[("m", .macroAt 1)]⟩
  diagnostics := []

/-- What the movement of such a score becomes, whatever the budget is. -/
def movement (count : Nat) : Movement :=
  ⟨"piano", none, List.replicate count (.chord [] token), token⟩

/-- The same score with a movement that consists of other expressions. -/
def scoreOf (list : List Expression) : Score :=
  { score 0 with tracks := [⟨"global", [⟨"piano", none, list, token⟩]⟩] }

/-- What such a movement becomes, where it becomes a list of expressions. -/
def movementOf (list : List Expression) : Movement := ⟨"piano", none, list, token⟩

/-- The note in these movements. -/
def note : Note := ⟨.ut, 0, none, none, token⟩

/-- The surroundings of the movement of chords. -/
def around (limit : Nat) : Surroundings :=
  ⟨[⟨"m", [], [], token⟩], ⟨[("m", .macroAt 1)]⟩, limit, token⟩

/-- A name adds nothing to the chord that it stands in. -/
theorem placeMember_reference (limit : Nat) (emitted : List Expression) :
    Inlining.placeMember (around limit) (Inlining.unfoldTo (around limit) 1)
        ([], ⟨emitted, 0, false, [], [], 0⟩) (.reference "m" token) =
      ([], ⟨emitted, 0, false, [], [], 0⟩) := rfl

/-- A chord comes out empty and at no cost. -/
theorem place_written (limit : Nat) (emitted : List Expression) :
    Inlining.place (around limit) (Inlining.unfoldTo (around limit) 1) written
        ⟨emitted, 0, false, [], [], 0⟩ =
      ⟨.chord [] token :: emitted, 0, false, [], [], 0⟩ := by
  rw [written, Inlining.place_chord, List.foldl_cons, List.foldl_cons, List.foldl_nil,
    placeMember_reference, placeMember_reference]
  rfl

theorem placeAll_written (limit count : Nat) (emitted : List Expression) :
    Inlining.placeAll (around limit) (Inlining.unfoldTo (around limit) 1)
        (List.replicate count written) ⟨emitted, 0, false, [], [], 0⟩ =
      ⟨List.replicate count (.chord [] token) ++ emitted, 0, false, [], [], 0⟩ := by
  induction count generalizing emitted with
  | zero => rfl
  | succ count inductionHypothesis =>
      rw [List.replicate_succ, Inlining.placeAll, if_neg (by simp), place_written,
        inductionHypothesis, List.replicate_succ', List.append_assoc, List.singleton_append]

/-- No budget is too small for such a movement, however long it is. -/
theorem inlineMacros_score (limit count : Nat) :
    (score count).inlineMacros limit =
      ({ score count with tracks := [⟨"global", [movement count]⟩] }, []) := by
  have inlined : Inlining.ofList (around limit) (List.replicate count written) =
      ⟨List.replicate count (.chord [] token), 0, false, [], [], 0⟩ := by
    have placed := placeAll_written limit count []
    rw [List.append_nil] at placed
    exact placed
  let before : Movement := ⟨"piano", none, List.replicate count written, token⟩
  have moved : before.inlineMacros (score count) limit = (movement count, []) := by
    change (({ before with expressions :=
        (Inlining.ofList (around limit) (List.replicate count written)).emitted.reverse } :
          Movement),
      (Inlining.ofList (around limit) (List.replicate count written)).problems) = _
    rw [inlined, List.reverse_replicate]
    rfl
  rw [Score.inlineMacros_eq]
  change (({ score count with tracks :=
      [⟨"global", [(before.inlineMacros (score count) limit).1]⟩] } : Score),
    ((before.inlineMacros (score count) limit).2 ++ [] ++ []).eraseDups) = _
  rw [moved]
  rfl

end SilentChord

/-! ### Source texts -/

/-- A source text that compiles does so under a larger limit, with the same result. -/
theorem Compiler.compile_of_le {settings : Settings} {source : String} {compiled : Score}
    {large : Nat} (le : settings.maxExpansion ≤ large)
    (success : compile settings source = .ok compiled) :
    compile { settings with maxExpansion := large } source = .ok compiled := by
  obtain ⟨score, wasRead, clean, finished⟩ := compile_eq_ok_iff.mp success
  obtain ⟨silent, playable, same⟩ := finish_eq_ok_iff.mp finished
  have wider := Score.expand_of_le le silent
  refine compile_eq_ok_iff.mpr ⟨score, wasRead, clean, finish_eq_ok_iff.mpr ?_⟩
  change (score.expand large).2 = [] ∧
    (settings.checkInstruments = true → (score.expand large).1.playingProblems = []) ∧
      (score.expand large).1 = compiled
  rw [wider]
  exact ⟨silent, playable, same⟩

/-! ### Main results -/

/-- No budget bounds how many chords without notes there are: under every one there is a
movement of any length. -/
theorem exists_movement_of_length (limit length : Nat) :
    ∃ score : Score, (score.inlineMacros limit).2 = [] ∧
      ∃ movement ∈ (score.inlineMacros limit).1.movements,
        movement.expressions.length = length := by
  refine ⟨SilentChord.score length, ?_, SilentChord.movement length, ?_, ?_⟩
  · rw [SilentChord.inlineMacros_score]
  · rw [SilentChord.inlineMacros_score]
    exact List.mem_singleton_self _
  · exact List.length_replicate

/-- **When a budget bounds a movement.** However macros call each other, and with or
without problems, the expressions of a movement that cost something fit into its budget.
Only chords without notes cost nothing. So a movement is within its budget exactly if such
chords are no more than what the other expressions leave of it. And there are none of them,
whatever the macros are, in a score whose chords all have a note of their own next to the names
in them. -/
theorem length_le_limit_iff_noteless_le {score : Score} {limit : Nat} {movement : Movement}
    (member : movement ∈ (score.inlineMacros limit).1.movements) :
    movement.expressions.countP (fun expression => !expression.isNoteless) ≤ limit ∧
      (movement.expressions.length ≤ limit ↔
        movement.expressions.countP Expression.isNoteless ≤
          limit - movement.expressions.countP fun expression => !expression.isNoteless) ∧
      (score.IsNoted →
        movement.expressions.countP Expression.isNoteless = 0 ∧
          movement.expressions.length ≤ limit) := by
  obtain ⟨before, beforeMember, rfl⟩ := Score.exists_of_mem_inlineMacros member
  have noted := before.countP_noted_inlineMacros_le score limit
  have whole : (before.inlineMacros score limit).1.expressions.length = _ :=
    List.length_eq_countP_add_countP Expression.isNoteless
  simp only [Bool.not_eq_true, Bool.decide_eq_false] at whole
  refine ⟨noted, ?_, fun written => ?_⟩
  · rw [whole]
    omega
  · have noteless := Movement.countP_noteless_inlineMacros written limit beforeMember
    rw [whole, noteless, Nat.zero_add]
    exact ⟨rfl, noted⟩

open SilentChord (token note scoreOf movementOf) in
/-- Two chords of names alone are over a budget of one, and a chord with a note is not. -/
theorem length_le_limit_iff_noteless_le_two_chords :
    SilentChord.movement 2 ∈ ((SilentChord.score 2).inlineMacros 1).1.movements ∧
      ((SilentChord.movement 2).expressions.length ≤ 1 ↔ 2 ≤ 1) ∧
      movementOf [.chord [.note note] token] ∈
        ((scoreOf [.chord [.note note, .reference "m" token] token]).inlineMacros 1).1.movements ∧
      (movementOf [.chord [.note note] token]).expressions.length ≤ 1 := by
  have silent : SilentChord.movement 2 ∈ ((SilentChord.score 2).inlineMacros 1).1.movements :=
    List.mem_singleton_self _
  have sounding : movementOf [.chord [.note note] token] ∈
      ((scoreOf [.chord [.note note, .reference "m" token] token]).inlineMacros 1).1.movements :=
    List.mem_singleton_self _
  have noted : (scoreOf [.chord [.note note, .reference "m" token] token]).IsNoted := by
    constructor <;> decide
  obtain ⟨_, exactly, _⟩ := length_le_limit_iff_noteless_le silent
  obtain ⟨_, _, within⟩ := length_le_limit_iff_noteless_le sounding
  exact ⟨silent, exactly, sounding, (within noted).2⟩

/-- The budget alone is no bound: two chords without notes fit into a budget of one. -/
theorem not_length_le_limit :
    ¬ ∀ (score : Score) (limit : Nat), ∀ movement ∈ (score.inlineMacros limit).1.movements,
      movement.expressions.length ≤ limit := by
  intro bounded
  have two := bounded (SilentChord.score 2) 1 (SilentChord.movement 2)
    (List.mem_singleton_self _)
  exact absurd two (by decide)

/-- **A budget only cuts off.** Under a smaller budget every movement is a beginning of
what it is under a larger one, and what it costs fits into the smaller one. Whatever
succeeds under the smaller budget, be it the inlining of macros, the whole expansion or
the compilation of a source text, succeeds under the larger one with the same result. -/
theorem inlineMacros_monotone_in_limit (score : Score) {small large : Nat}
    (le : small ≤ large) :
    List.Forall₂ Track.IsBeginningOf (score.inlineMacros small).1.tracks
        (score.inlineMacros large).1.tracks ∧
      (∀ movement ∈ (score.inlineMacros small).1.movements,
        Inlining.costAll movement.expressions ≤ small) ∧
      ((score.inlineMacros small).2 = [] →
        score.inlineMacros large = score.inlineMacros small) ∧
      ((score.expand small).2 = [] → score.expand large = score.expand small) ∧
      (∀ (settings : Settings) (source : String) (compiled : Score),
        settings.maxExpansion = small →
        Compiler.compile settings source = .ok compiled →
        Compiler.compile { settings with maxExpansion := large } source = .ok compiled) := by
  refine ⟨?_, ?_, Score.inlineMacros_of_le le, Score.expand_of_le le, ?_⟩
  · rw [Score.inlineMacros_tracks, Score.inlineMacros_tracks, List.forall₂_map_left_iff,
      List.forall₂_map_right_iff, List.forall₂_same]
    exact fun track _ => track.inlineMacros_isBeginningOf score le
  · intro movement member
    obtain ⟨before, _, rfl⟩ := Score.exists_of_mem_inlineMacros member
    exact before.costAll_inlineMacros_le score small
  · intro settings source compiled limit success
    exact Compiler.compile_of_le (limit ▸ le) success

open SilentChord (note scoreOf movementOf) in
/-- A budget of one cuts the second of two notes off and leaves the first, which is all that
it can pay for. A chord that it does pay for is the same under a budget of two. -/
theorem inlineMacros_monotone_in_limit_one_two :
    1 ≤ 2 ∧
      ((scoreOf [.note note, .note note]).inlineMacros 1).2 ≠ [] ∧
      (movementOf [.note note]).IsBeginningOf (movementOf [.note note, .note note]) ∧
      Inlining.costAll (movementOf [.note note]).expressions ≤ 1 ∧
      (SilentChord.score 2).inlineMacros 2 = (SilentChord.score 2).inlineMacros 1 ∧
      ∃ compiled,
        Compiler.compile { Settings.standard with maxExpansion := 2 } "piano: do" =
          .ok compiled := by
  have le : 1 ≤ 2 := by decide
  have short : ((scoreOf [.note note, .note note]).inlineMacros 1).1.tracks =
      [⟨"global", [movementOf [.note note]]⟩] := rfl
  have long : ((scoreOf [.note note, .note note]).inlineMacros 2).1.tracks =
      [⟨"global", [movementOf [.note note, .note note]]⟩] := rfl
  obtain ⟨beginnings, paid, _⟩ :=
    inlineMacros_monotone_in_limit (scoreOf [.note note, .note note]) le
  obtain ⟨_, _, inlined, _, compiles⟩ :=
    inlineMacros_monotone_in_limit (SilentChord.score 2) le
  rw [short, long] at beginnings
  obtain _ | ⟨⟨_, movements⟩, _⟩ := beginnings
  obtain _ | ⟨beginning, _⟩ := movements
  refine ⟨le, ?_, beginning, paid _ (List.mem_singleton_self _), ?_, ?_⟩
  · exact List.cons_ne_nil _ _
  · exact inlined (by rw [SilentChord.inlineMacros_score])
  · obtain ⟨compiled, success⟩ := Compiler.exists_eq_ok_of_isOk
      (show (Compiler.compile { Settings.standard with maxExpansion := 1 } "piano: do").isOk = true
        by decide +kernel)
    exact ⟨compiled,
      compiles { Settings.standard with maxExpansion := 1 } "piano: do" compiled rfl success⟩

end Solfege
