import Solfege.Proofs.Reading.Phrases
import Solfege.Proofs.Recovery.Step
import Mathlib.Data.List.DropRight

/-!
Contract: expressions end in front of the closing brackets that the constructs around them wait
for.

Owns:
- the proof, for each step of the grammar of expressions, that it keeps to the closing brackets
  that are expected around it;
- calls, which end behind a closing parenthesis whatever is wrong with their arguments, and
  groups, which end behind their own bracket.

Does not own: statements.
-/

namespace Solfege.Reading

theorem standsAlone_of_isAccidental (kind : Token.Kind) (accidental : isAccidental kind = true) :
    standsAlone kind = true := by
  cases kind <;> first | rfl | contradiction

theorem standsAlone_of_isWhitespace (kind : Token.Kind) (white : isWhitespace kind = true) :
    standsAlone kind = true := by
  cases kind <;> first | rfl | contradiction

theorem isRightParen_iff (kind : Token.Kind) : isRightParen kind = true ↔ kind = .rightParen := by
  cases kind <;> simp [isRightParen]

theorem group_resumes_iff (kind : Token.Kind) :
    Layout.group.resumes kind = true ↔ kind = .rightBracket := by
  cases kind <;> simp [Layout.group]

/-- What was skipped is not there to be skipped again. -/
theorem skip_skip (test : Token.Kind → Bool) (reading : Reading) :
    (reading.skip test).skip test = reading.skip test := by
  unfold Reading.skip
  simp only [List.dropWhile_idempotent]

section Leaves

variable {scope : Scope} {base : List Token.Kind} {before : Reading}
variable (reaches : Reaches scope base before) (filled : base ≠ [])

include reaches filled

/-! ### Phrases -/

theorem keeps_phrase {α : Type} (phrase : Phrase α) (anchor : Token) :
    Keeps scope base (phrase.run anchor) before := by
  induction phrase generalizing before anchor with
  | done value => exact leads_pure reaches
  | anchored next inductionHypothesis =>
      exact (keeps_numberValue anchor reaches).bind fun value _ read =>
        inductionHypothesis value read anchor
  | number expected next inductionHypothesis =>
      exact (keeps_expectNumber _ reaches filled).bind fun value _ read =>
        inductionHypothesis value read anchor
  | nonzero expected problem next inductionHypothesis =>
      exact peek_leads ((keeps_expectNumber _ reaches filled).bind fun value _ read =>
        .ite (fun _ => leads_refuse read) fun _ => inductionHypothesis value read anchor)
  | sign written expected next inductionHypothesis =>
      exact (keeps_expect (by cases written <;> rfl) _ reaches filled).bind fun _ _ read =>
        inductionHypothesis read anchor
  | pitch expected next inductionHypothesis =>
      rw [Phrase.run]
      refine peek_leads ?_
      split
      · exact leads_unexpected reaches
      · rename_i name _ isNote
        exact advance_leads_alone reaches filled (by rw [isNote]; rfl) fun read =>
          inductionHypothesis name read anchor
      · exact leads_unexpected reaches
  | choice written behind other behindHypothesis otherHypothesis =>
      refine check_leads _ (fun here => ?_) fun _ => otherHypothesis reaches anchor
      exact advance_leads_alone reaches filled (by rw [here]; cases written <;> rfl) fun read =>
        behindHypothesis read _
  | amount next other nextHypothesis otherHypothesis =>
      refine check_leads .number (fun here => ?_) fun _ => otherHypothesis reaches anchor
      exact advance_leads_alone reaches filled (by rw [here]; rfl) fun read =>
        (keeps_numberValue _ read).bind fun value _ read => nextHypothesis value read anchor
  | following problem next inductionHypothesis =>
      exact followsExpression_leads (inductionHypothesis reaches anchor) (leads_refuse reaches)

omit reaches in
/-- A release takes a parenthesis that is left over, also where nothing can be released. What
else begins a phrase is no bracket. -/
theorem Begins.behind_leaf (begins : Begins scope base before) {phrase : Phrase Leaf}
    (leaf : leafPhrase? before.current.kind = some phrase) : Reaches scope base before.advanced := by
  by_cases paren : before.current.kind = .rightParen
  · exact begins.released filled paren
  · refine begins.reaches.imp fun _ expects => expects.advanced_alone filled ?_
    cases kind : before.current.kind <;> rw [kind] at leaf paren <;> first | rfl | contradiction

omit reaches in
theorem keeps_leafFrom (begins : Begins scope base before) {phrase : Phrase Leaf}
    (leaf : leafPhrase? before.current.kind = some phrase) :
    Keeps scope base (leafFrom phrase) before :=
  advance_leads ((keeps_phrase (begins.behind_leaf filled leaf) filled phrase _).bind
    fun _ _ read => leads_pure read)

/-! ### Parts of notes -/

theorem keeps_accidentals : Keeps scope base accidentals before :=
  reaches.imp fun _ expects => expects.skip filled standsAlone_of_isAccidental

theorem keeps_octaveSuffix : Keeps scope base octaveSuffix before :=
  octaveSuffix_eq default ▸ keeps_phrase reaches filled _ _

theorem keeps_durationSuffix : Keeps scope base durationSuffix before :=
  durationSuffix_eq default ▸ keeps_phrase reaches filled _ _

end Leaves

/-! ### Expressions with expressions inside -/

/-- The step keeps to the closing brackets that are expected wherever an expression may begin. -/
def KeepsWithin (inner : Step Expression) : Prop :=
  ∀ scope base before, base ≠ [] → Begins scope base before → Keeps scope base inner before

section Parts

variable {inner : Step Expression} (keeps : KeepsWithin inner)
variable {scope : Scope} {base : List Token.Kind} {before : Reading}

include keeps

theorem keeps_chordFrom (reaches : Reaches scope base before) (filled : base ≠ [])
    (first : ChordMember) (token : Token) (here : before.current.kind = .slash) :
    Keeps scope base (chordFrom inner first token) before := by
  have begins : Begins scope base (before.advanced.inside .chord) :=
    (reaches.begins_behind_slash filled here).congr rfl rfl (Nat.le_refl _)
  refine advance_leads ((leads_within (keeps scope base _ filled begins) unplaced_reaches
    unplaced_reaches).bind fun rest _ read => ?_)
  split
  · exact leads_pure read
  · exact leads_pure read
  · exact leads_pure read
  · exact leads_refuse read

theorem keeps_noteFrom (reaches : Reaches scope base before) (filled : base ≠ [])
    {name : Syllable} (here : before.current.kind = .note name) :
    Keeps scope base (noteFrom inner name) before :=
  advance_leads_alone reaches filled (by rw [here]; rfl) fun behind =>
    (keeps_accidentals behind filled).bind fun _ _ read =>
      (keeps_octaveSuffix read filled).bind fun _ _ read =>
        check_leads .slash (keeps_chordFrom keeps read filled _ _) fun _ =>
          (keeps_durationSuffix read filled).bind fun _ _ read => leads_pure read

/-! ### Calls and names -/

/-- Behind the arguments the parenthesis that closes them was read, or they stop in front of
it. -/
theorem leads_argumentsFrom (bound : Nat) (found : List Expression)
    (reaches : Reaches scope (.rightParen :: base) before)
    (more : (before.skip isWhitespace).current.kind ≠ .rightParen) :
    Leads (argumentsFrom inner bound found) before (Ended scope base)
      (Reaches scope (.rightParen :: base)) := by
  induction bound generalizing found before with
  | zero => exact leads_abort
  | succ bound inductionHypothesis =>
      have filled := List.cons_ne_nil Token.Kind.rightParen base
      refine skipping_leads_alone reaches filled standsAlone_of_isWhitespace fun there => ?_
      refine check_leads .endOfFile (fun _ => peek_leads (leads_refuse there)) fun _ => ?_
      refine (keeps scope _ _ filled (there.begins more)).bind fun argument _ read => ?_
      refine skipping_leads_alone read filled standsAlone_of_isWhitespace fun behind =>
        peek_leads ?_
      split
      · rename_i closes
        exact advance_leads (leads_pure (AtCloser.mk behind closes).ended)
      · rename_i comma
        refine advance_leads_alone behind filled (by rw [comma]; rfl) fun next => ?_
        refine skipping_leads_alone next filled standsAlone_of_isWhitespace fun there => ?_
        refine check_leads .rightParen (fun _ => peek_leads (leads_refuse there)) fun onward => ?_
        exact inductionHypothesis (argument :: found) there (by rwa [skip_skip])
      · exact leads_unexpected behind

theorem leads_argumentList (reaches : Reaches scope (.rightParen :: base) before) :
    Leads (argumentList inner) before (Ended scope base)
      (Reaches scope (.rightParen :: base)) := by
  refine skipping_leads_alone reaches (List.cons_ne_nil _ _) standsAlone_of_isWhitespace
    fun there => ?_
  refine check_leads .rightParen
    (fun closes => advance_leads (leads_pure (AtCloser.mk there closes).ended)) fun onward => ?_
  exact leads_argumentsFrom keeps _ [] there (by rwa [skip_skip])

theorem leads_recoveredArguments (name : Token)
    (reaches : Reaches scope (.rightParen :: base) before) :
    Leads (recoveredArguments inner name) before (Ended scope base) fun _ => False := by
  refine (leads_argumentList keeps reaches).attempt_bind (fun _ _ read => leads_pure read) ?_
  intro diagnostic after stopped
  refine recover_leads stopped isRightParen_iff (.inl rfl) diagnostic fun resumed there => ?_
  refine check_leads .rightParen (fun _ => ?_) fun onward => absurd there.closes onward
  have behind : Ended scope base resumed.advanced := there.ended
  exact behind

theorem leads_callFrom (name : Token)
    (reaches : Reaches scope (.rightParen :: base) before.advanced) :
    Leads (callFrom inner name) before (Ended scope base) fun _ => False := by
  have there : Reaches scope (.rightParen :: base) (before.advanced.inside .arguments) :=
    unplaced_reaches _ _ reaches
  exact advance_leads ((leads_within (leads_recoveredArguments keeps name there)
    unplaced_ended unplaced_false).bind fun _ _ read => leads_pure read)

/-- A call inside ends at a parenthesis that may be left over in its scope, and so is then the
one of the call. -/
theorem keeps_nameFrom (reaches : Reaches scope base before) (filled : base ≠ [])
    (here : before.current.kind = .word) : Keeps scope base (nameFrom inner) before := by
  obtain ⟨extra, expects⟩ := reaches
  have behind (inside : before.advanced.current.kind ≠ .leftParen) :
      Reaches scope base before.advanced :=
    ⟨extra, expects.advanced filled (by rw [here]; rfl) fun _ => inside⟩
  refine advance_leads (peek_leads ?_)
  split
  · rename_i slash
    exact keeps_chordFrom keeps (behind (by rw [slash]; decide)) filled _ _ slash
  · rename_i opens
    have expected := replicate_append_ne_nil extra filled
    obtain ⟨stands, _⟩ := expects.stands.advanced_inert expected (by rw [here]; rfl)
    have entered := stands.opened expected (by rw [opens, closersBehind_leftParen expected])
      (by rw [opens]; decide)
    exact (leads_callFrom keeps _ entered).mono
      (fun _ ended => expects.lower filled ended.reaches) fun _ impossible => impossible.elim
  · exact leads_pure (behind ‹_›)

/-! ### Groups -/

theorem leads_elementsFrom (bound : Nat) (marked : Bool) (found : List Expression)
    (reaches : Reaches scope (.rightBracket :: base) before) :
    Leads (elementsFrom .group inner bound marked found) before
      (AtCloser scope .rightBracket base) fun _ => False := by
  induction bound generalizing marked found before with
  | zero => exact leads_abort
  | succ bound inductionHypothesis =>
      have filled := List.cons_ne_nil Token.Kind.rightBracket base
      refine skipping_leads_alone reaches filled standsAlone_of_isWhitespace fun there =>
        peek_leads (.ite (fun ends => ?_) fun _ => ?_)
      · have closes : (before.skip isWhitespace).current.kind = .rightBracket := by
          have more := there.not_endOfFile filled
          cases kind : (before.skip isWhitespace).current.kind <;> simp_all [Layout.group]
        have stops := AtCloser.mk there closes
        exact .ite
          (fun _ => (leads_leave _ stops unplaced_atCloser).bind fun _ _ here => leads_pure here)
          fun _ => leads_pure stops
      · refine (keeps scope _ _ filled there.begins_in_group).attempt_bind
          (fun element after read => ?_) fun diagnostic after stopped => ?_
        · have rest : ∀ middle, Reaches scope (.rightBracket :: base) middle →
              Leads (elementsFrom .group inner bound true (element :: found)) middle
                (AtCloser scope .rightBracket base) fun _ => False :=
            fun _ => inductionHypothesis true (element :: found)
          exact .ite
            (fun _ => (leads_enter _ read unplaced_reaches).bind fun _ middle => rest middle)
            fun _ => rest after read
        · exact recover_leads stopped group_resumes_iff (.inr rfl) diagnostic fun _ resumed =>
            inductionHypothesis marked _ resumed.reaches

theorem leads_groupItems (opening : Token)
    (reaches : Reaches scope (.rightBracket :: base) before) :
    Leads (groupItems inner opening) before (Reaches scope base) fun _ => False := by
  refine (leads_elementsFrom keeps _ false [] reaches).bind fun items after there => ?_
  refine check_leads .rightBracket (fun _ => ?_) fun onward => absurd there.closes onward
  exact advance_leads (leads_pure (there.closed (.inr rfl)))

theorem keeps_groupFrom (reaches : Reaches scope base before) (filled : base ≠ [])
    (here : before.current.kind = .leftBracket) :
    Keeps scope base (groupFrom inner) before := by
  obtain ⟨extra, expects⟩ := reaches
  have expected := replicate_append_ne_nil extra filled
  have entered := expects.stands.opened expected
    (by rw [here, closersBehind_leftBracket expected]) (by rw [here]; decide)
  -- The items are read in a scope of their own, where nothing is left over yet.
  have items : Keeps scope base (within .group (groupItems inner before.current))
      before.advanced :=
    (leads_within (leads_groupItems keeps before.current (unplaced_reaches _ _ entered))
      unplaced_reaches unplaced_false).mono (fun _ read => expects.lower filled read)
        fun _ impossible => impossible.elim
  exact advance_leads (items.bind fun _ _ read => leads_pure read)

/-! ### All expressions -/

theorem keeps_expressionFrom (filled : base ≠ []) (begins : Begins scope base before) :
    Keeps scope base (expressionFrom inner) before := by
  have reaches := begins.reaches
  rw [expressionFrom_eq]
  refine peek_leads (expressionAt_cases
    (motive := fun kind step => before.current.kind = kind → Keeps scope base step before)
    ?_ ?_ ?_ ?_ ?_ ?_ _ rfl)
  · exact fun _ _ leaf here => keeps_leafFrom filled begins (here ▸ leaf)
  · intro opens
    obtain ⟨extra, expects⟩ := reaches
    exact absurd opens (expects.inside filled)
  · exact keeps_groupFrom keeps reaches filled
  · exact keeps_nameFrom keeps reaches filled
  · exact fun _ => keeps_noteFrom keeps reaches filled
  · exact fun _ _ => leads_unexpected reaches

end Parts

theorem keepsWithin_expression (bound : Nat) : KeepsWithin (expression bound) := by
  induction bound with
  | zero => exact fun _ _ _ _ _ => leads_abort
  | succ bound inductionHypothesis =>
      exact fun _ _ _ filled begins => keeps_expressionFrom inductionHypothesis filled begins

end Solfege.Reading
