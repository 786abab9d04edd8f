import Solfege.Proofs.Inlining.Course

/-!
Contract: which chords lose all their notes.

Owns:
- the chords without notes, and the expressions in which every chord has a note of its own;
- the proof that what such expressions become, through arguments and macros with such bodies,
  is no chord without notes.

Does not own: what a chord without notes costs.

A chord gains notes from the names in it and loses none, so only a chord in which nothing but
names is written can end without notes.
-/

namespace Solfege

/-! ### Written notes -/

def ChordMember.isNote : ChordMember → Bool
  | .note _ => true
  | .reference _ _ => false

namespace Expression

/-- Whether an expression is a chord without notes, or a hold around one. -/
def isNoteless : Expression → Bool
  | .chord [] _ => true
  | .hold (.chord [] _) _ => true
  | _ => false

mutual

/-- Whether every chord in an expression has a note of its own, next to its names. -/
def isNoted : Expression → Bool
  | .chord members _ => members.any ChordMember.isNote
  | .hold inner _ => isNoted inner
  | .call _ arguments _ => areNoted arguments
  | .group items _ => areNoted items
  | _ => true

def areNoted : List Expression → Bool
  | [] => true
  | item :: rest => isNoted item && areNoted rest

end

theorem areNoted_iff {list : List Expression} :
    areNoted list = true ↔ ∀ expression ∈ list, expression.isNoted = true := by
  induction list with
  | nil => simp [areNoted]
  | cons item rest inductionHypothesis => simp [areNoted, inductionHypothesis]

theorem isNoteless_of_isNoted {expression : Expression} (noted : expression.isNoted = true) :
    expression.isNoteless = false := by
  cases expression with
  | chord members token =>
      cases members with
      | nil => contradiction
      | cons member rest => rfl
  | hold inner token =>
      cases inner with
      | chord members place =>
          cases members with
          | nil => contradiction
          | cons member rest => rfl
      | _ => rfl
  | _ => rfl

/-! ### Arguments -/

theorem any_isNote_substituteMember (bindings : Bindings) {members : List ChordMember}
    (noted : members.any ChordMember.isNote = true) :
    (members.flatMap (substituteMember bindings)).any ChordMember.isNote = true := by
  obtain ⟨member, isMember, isNote⟩ := List.any_eq_true.mp noted
  cases member with
  | reference name token => contradiction
  | note written =>
      refine List.any_eq_true.mpr ⟨.note written, ?_, isNote⟩
      exact List.mem_flatMap.mpr ⟨.note written, isMember, List.mem_singleton_self _⟩

/-- Arguments with notes of their own leave an expression with notes of its own. -/
theorem isNoted_substitute {bindings : Bindings}
    (arguments : ∀ name argument, bindings.lookup name = some argument →
      argument.isNoted = true) (expression : Expression) (noted : expression.isNoted = true) :
    (substitute bindings expression).isNoted = true := by
  induction expression using Expression.rec
    (motive_2 := fun list => areNoted list = true →
      areNoted (list.map (substitute bindings)) = true) with
  | nil noted => exact noted
  | cons item rest here others noted =>
      obtain ⟨hereNoted, othersNoted⟩ := Bool.and_eq_true_iff.mp noted
      exact Bool.and_eq_true_iff.mpr ⟨here hereNoted, others othersNoted⟩
  | reference name token =>
      rw [substitute]
      split
      · rename_i argument found
        exact arguments name argument found
      · exact noted
  | call name given token others =>
      rw [substitute_call]
      exact others noted
  | group items token others =>
      rw [substitute_group]
      exact others noted
  | hold inner token here =>
      rw [substitute]
      exact here noted
  | chord members token =>
      rw [substitute]
      exact any_isNote_substituteMember bindings noted
  | _ => exact noted

theorem areNoted_substituteAll (parameters : List String) {arguments list : List Expression}
    (argumentsNoted : ∀ argument ∈ arguments, argument.isNoted = true)
    (noted : areNoted list = true) :
    areNoted (substituteAll (parameters.zip arguments) list) = true := by
  rw [substituteAll_eq, areNoted_iff]
  intro expression member
  obtain ⟨before, isBefore, rfl⟩ := List.mem_map.mp member
  refine isNoted_substitute (fun name argument found => ?_) before
    (areNoted_iff.mp noted before isBefore)
  obtain ⟨_, _, behind, _⟩ := List.lookup_eq_some_iff.mp found
  have bound : (name, argument) ∈ parameters.zip arguments := by simp [behind]
  exact argumentsNoted argument (List.of_mem_zip bound).2

end Expression

namespace Inlining

open Expression (isNoted areNoted)

/-! ### Emissions -/

/-- Every chord that was emitted has a note. -/
def Noted (state : Inlining) : Prop :=
  ∀ expression ∈ state.emitted, expression.isNoted = true

theorem Noted.nil (state : Inlining) : Noted { state with emitted := [] } :=
  List.forall_mem_nil _

theorem Noted.fail {state : Inlining} (noted : Noted state) (diagnostic : Diagnostic) :
    Noted (state.fail diagnostic) :=
  noted

theorem Noted.fails {state : Inlining} (noted : Noted state) (diagnostics : List Diagnostic) :
    Noted (diagnostics.foldl Inlining.fail state) := by
  induction diagnostics generalizing state with
  | nil => exact noted
  | cons diagnostic rest inductionHypothesis => exact inductionHypothesis (noted.fail diagnostic)

theorem Noted.emit {around : Surroundings} {state : Inlining} (noted : Noted state)
    {expression : Expression} (isNoted : expression.isNoted = true) :
    Noted (state.emit around expression) := by
  apply emit_elim (motive := Noted)
  · intro _
    exact noted
  · intro _ _
    exact noted
  · intro _ _
    exact List.forall_mem_cons.mpr ⟨isNoted, noted⟩

theorem Noted.closeHold {around : Surroundings} {state : Inlining} (noted : Noted state)
    {inside : List Expression} (insideNoted : ∀ expression ∈ inside, expression.isNoted = true)
    (token : Token) : Noted (state.closeHold around inside token) := by
  unfold Inlining.closeHold
  split
  · exact noted.emit rfl
  · rename_i members place
    exact noted.emit (insideNoted (.chord members place) (List.mem_singleton_self _))
  · exact noted

theorem isNoted_gather {emitted : List Expression}
    (noted : ∀ expression ∈ emitted, expression.isNoted = true) (token : Token) :
    (gather emitted token).isNoted = true := by
  unfold gather
  split
  · exact noted _ (List.mem_singleton_self _)
  · exact Expression.areNoted_iff.mpr fun expression member =>
      noted expression (List.mem_reverse.mp member)

/-! ### Members -/

/-- A chord keeps the members that it has. -/
theorem suffix_membersFrom (members : List ChordMember) (expressions : List Expression) :
    members <:+ (membersFrom members expressions).1 := by
  induction expressions generalizing members with
  | nil => exact List.suffix_rfl
  | cons expression rest inductionHypothesis =>
      cases expression with
      | note written => exact (List.suffix_cons _ members).trans (inductionHypothesis _)
      | chord more token => exact (List.suffix_append _ members).trans (inductionHypothesis _)
      | _ => exact List.suffix_rfl

section Members

variable (around : Surroundings) (unfolding : Unfolding)

theorem suffix_placeMember (progress : List ChordMember × Inlining) (member : ChordMember) :
    progress.1 <:+ (placeMember around unfolding progress member).1 := by
  cases member with
  | note written => exact List.suffix_cons _ _
  | reference name token =>
      unfold placeMember
      dsimp only
      split
      all_goals
        rename_i members same
        have kept := suffix_membersFrom progress.1 (placeName around unfolding name token
          { progress.2 with emitted := [] }).emitted.reverse
        rw [same] at kept
        exact kept

theorem suffix_placeMembers (members : List ChordMember)
    (progress : List ChordMember × Inlining) :
    progress.1 <:+ (members.foldl (placeMember around unfolding) progress).1 := by
  induction members generalizing progress with
  | nil => exact List.suffix_rfl
  | cons member rest inductionHypothesis =>
      exact (suffix_placeMember around unfolding progress member).trans (inductionHypothesis _)

/-- A note that is written in a chord stays in it. -/
theorem any_isNote_placeMembers {members : List ChordMember}
    (noted : members.any ChordMember.isNote = true) (progress : List ChordMember × Inlining) :
    (members.foldl (placeMember around unfolding) progress).1.any ChordMember.isNote = true := by
  obtain ⟨member, isMember, isNote⟩ := List.any_eq_true.mp noted
  obtain ⟨front, behind, rfl⟩ := List.append_of_mem isMember
  cases member with
  | reference name token => contradiction
  | note written =>
      rw [List.foldl_append, List.foldl_cons]
      have kept := suffix_placeMembers around unfolding behind (placeMember around unfolding
        (front.foldl (placeMember around unfolding) progress) (.note written))
      exact List.any_eq_true.mpr ⟨.note written, kept.subset List.mem_cons_self, isNote⟩

end Members

/-! ### Inlining -/

/-- The body of a macro leaves every chord a note, where its arguments do. -/
def UnfoldsNoted (around : Surroundings) (unfolding : Unfolding) : Prop :=
  ∀ definition arguments state, definition ∈ around.macros →
    (∀ argument ∈ arguments, argument.isNoted = true) → Noted state →
    Noted (unfolding definition arguments state)

section Steps

variable {around : Surroundings} {unfolding : Unfolding} (unfolds : UnfoldsNoted around unfolding)
  {state : Inlining}

include unfolds

theorem Noted.placeName (noted : Noted state) (name : String) (token : Token) :
    Noted (Inlining.placeName around unfolding name token state) := by
  unfold Inlining.placeName
  cases accepted : callee around state.active name 0 token with
  | error diagnostic => exact noted
  | ok definition =>
      obtain ⟨found, _⟩ := callee_eq_ok_iff.mp accepted
      dsimp only
      split
      · exact noted
      · exact unfolds definition [] state (Surroundings.mem_of_macro? found)
          (List.forall_mem_nil _) noted

end Steps

mutual

/-- What an expression with notes of its own becomes has notes. -/
theorem Noted.place {around : Surroundings} {unfolding : Unfolding}
    (unfolds : UnfoldsNoted around unfolding) {expression : Expression}
    (isNoted : expression.isNoted = true) {state : Inlining} (noted : Noted state) :
    Noted (Inlining.place around unfolding expression state) := by
  cases expression with
  | reference name token =>
      rw [Inlining.place]
      exact noted.placeName unfolds name token
  | call name arguments token =>
      cases accepted : callee around state.active name arguments.length token with
      | error diagnostic =>
          rw [place_call_of_error accepted]
          exact noted
      | ok definition =>
          obtain ⟨found, _⟩ := callee_eq_ok_iff.mp accepted
          obtain ⟨given, placed⟩ := Noted.placeArguments unfolds isNoted noted
          rw [place_call_of_ok accepted]
          split
          · exact placed
          · exact unfolds definition _ _ (Surroundings.mem_of_macro? found) given placed
  | group items token =>
      rw [Inlining.place]
      exact Noted.placeAll unfolds isNoted noted
  | chord members token =>
      have same : (members.foldl (placeMember around unfolding) ([], state)).2.emitted =
          state.emitted :=
        emitted_placeMembers members ([], state)
      have placed : Noted (members.foldl (placeMember around unfolding) ([], state)).2 := by
        unfold Noted
        rw [same]
        exact noted
      have notes := any_isNote_placeMembers around unfolding isNoted ([], state)
      rw [place_chord]
      apply placed.emit
      rw [Expression.isNoted, List.any_reverse]
      exact notes
  | hold inner token =>
      have innerNoted : inner.isNoted = true := isNoted
      have inside := Noted.place unfolds innerNoted (Noted.nil state)
      rw [Inlining.place]
      split
      · exact noted
      · have after : Noted { Inlining.place around unfolding inner
            { state with emitted := [] } with emitted := state.emitted } := noted
        exact after.closeHold inside token
  | repetition count token => exact noted
  | _ => exact noted.emit rfl

theorem Noted.placeAll {around : Surroundings} {unfolding : Unfolding}
    (unfolds : UnfoldsNoted around unfolding) {list : List Expression}
    (areNoted : areNoted list = true) {state : Inlining} (noted : Noted state) :
    Noted (Inlining.placeAll around unfolding list state) := by
  cases list with
  | nil => exact noted
  | cons item rest =>
      obtain ⟨here, others⟩ := Bool.and_eq_true_iff.mp areNoted
      rw [Inlining.placeAll]
      split
      · exact noted
      · exact Noted.placeAll unfolds others (Noted.place unfolds here noted)

/-- What the arguments become has notes of its own, and nothing is emitted for them. -/
theorem Noted.placeArguments {around : Surroundings} {unfolding : Unfolding}
    (unfolds : UnfoldsNoted around unfolding) {arguments : List Expression}
    (areNoted : areNoted arguments = true) {state : Inlining} (noted : Noted state) :
    (∀ argument ∈ (Inlining.placeArguments around unfolding arguments state).1,
      argument.isNoted = true) ∧
      Noted (Inlining.placeArguments around unfolding arguments state).2 := by
  cases arguments with
  | nil => exact ⟨List.forall_mem_nil _, noted⟩
  | cons argument rest =>
      obtain ⟨here, others⟩ := Bool.and_eq_true_iff.mp areNoted
      have inside := Noted.place unfolds here (Noted.nil state)
      have after : Noted { Inlining.place around unfolding argument
          { state with emitted := [] } with emitted := state.emitted } := noted
      obtain ⟨given, placed⟩ := Noted.placeArguments unfolds others after
      rw [Inlining.placeArguments]
      exact ⟨List.forall_mem_cons.mpr ⟨isNoted_gather inside argument.token, given⟩, placed⟩

end

/-- Macros in whose bodies every chord has a note of its own leave every chord a note, to
however many levels. -/
theorem unfoldTo_noted {around : Surroundings}
    (bodies : ∀ definition ∈ around.macros, areNoted definition.body = true) (level : Nat) :
    UnfoldsNoted around (unfoldTo around level) := by
  induction level with
  | zero => exact fun _ _ _ _ _ noted => noted
  | succ level inductionHypothesis =>
      intro definition arguments state member given noted
      have warned := noted.fails (Expression.chordProblems
        (definition.parameters.zip arguments) definition.body)
      have body := Expression.areNoted_substituteAll definition.parameters given
        (bodies definition member)
      have entered : Noted { (Expression.chordProblems (definition.parameters.zip arguments)
          definition.body).foldl Inlining.fail state with
            active := definition.name ::
              ((Expression.chordProblems (definition.parameters.zip arguments)
                definition.body).foldl Inlining.fail state).active } := warned
      rw [unfoldTo]
      exact Noted.placeAll inductionHypothesis body entered

theorem ofList_noted {around : Surroundings}
    (bodies : ∀ definition ∈ around.macros, areNoted definition.body = true)
    {list : List Expression} (noted : areNoted list = true) : Noted (ofList around list) :=
  Noted.placeAll (unfoldTo_noted bodies around.macros.length) noted (List.forall_mem_nil _)

end Inlining

/-! ### Scores -/

/-- Every chord that is written in a score has a note of its own, next to its names. -/
def Score.IsNoted (score : Score) : Prop :=
  (∀ definition ∈ score.macros, Expression.areNoted definition.body = true) ∧
    ∀ movement ∈ score.movements, Expression.areNoted movement.expressions = true

end Solfege
