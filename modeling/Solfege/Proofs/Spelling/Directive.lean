import Solfege.Proofs.Spelling.Step
import Solfege.Reading.Expression

/-!
Contract: spelled directives are read back.

Owns:
- the kinds of token that may stand behind an expression, and those that begin one;
- the proof that a length and every directive are read as they were spelled, and nothing behind
  them.

Does not own: expressions that are no directives.

An expression may stand in front of a blank, a closing sign, a comma or the end of a line.
None of these continues a note, a name or a number, so no reader takes more than was spelled.
-/

namespace Solfege

/-- Whether a kind may stand behind an expression. -/
def Token.Kind.closesElement : Token.Kind → Bool
  | .space | .newline | .comma | .rightParen | .rightBracket | .endOfFile => true
  | _ => false

/-- Whether a kind may be that of the first token of an expression. -/
def Token.Kind.opensElement : Token.Kind → Bool
  | .space | .newline | .semicolon | .comma | .rightBracket | .endOfFile => false
  | _ => true

namespace Reading

variable {reading : Reading} {tokens behind : List Token}

theorem front_ne {kind : Token.Kind} (closes : (reading.front behind).closesElement = true)
    (other : kind.closesElement = false) : reading.front behind ≠ kind := by
  intro same
  rw [same, other] at closes
  contradiction

/-! ### Durations -/

theorem takes_fraction (numerator : Nat) {denominator : Nat} (small : IsSmall denominator)
    (nonzero : denominator ≠ 0)
    (spells : Spells [.sign '/', .number denominator] tokens behind) :
    Takes (fraction numerator) reading tokens behind
      fun read => read = ⟨numerator, denominator⟩ := by
  obtain ⟨_, token, rfl, here, number⟩ := spells.signed small
  refine advance_takes (peek_takes ((takes_expectNumber _ here number).bind ?_))
  rintro _ rfl
  exact ite_takes nonzero (takes_pure rfl)

theorem takes_durationValue {duration : Duration} (writable : duration.Writable) (colon : Token)
    (spells : Spells duration.spelled tokens behind)
    (closes : (reading.front behind).closesElement = true) :
    Takes (durationValue colon) reading tokens behind fun read => read = duration := by
  obtain ⟨beats, denominator⟩ := duration
  obtain ⟨token, left, rfl, here, number, rest⟩ := spells.number writable.numerator
  have noSlash : reading.front (token :: left) ≠ .slash := by
    change token.kind ≠ .slash
    rw [here]
    exact Token.Kind.noConfusion
  refine check_not_takes noSlash ((takes_expectNumber _ here number).bind ?_)
  rintro _ rfl
  by_cases whole : denominator = 1
  · rw [if_pos whole] at rest
    obtain rfl := rest.eq_of_nil
    subst whole
    exact check_not_takes (front_ne closes rfl) (takes_pure rfl)
  · rw [if_neg whole] at rest
    refine check_takes ?_ (takes_fraction _ writable.denominator writable.nonzero rest)
    obtain ⟨_, final, rfl, _⟩ := rest.cons
    rfl

/-! ### Directives -/

section Directives

variable {first number : Token} {value : Nat}

theorem takes_octaveDirective (direction : Direction) (isNumber : number.kind = .number)
    (hasValue : number.number? = some value) :
    Takes (octaveDirective direction) reading (first :: number :: behind) behind
      fun read => read = .directive (.octave direction value) first := by
  refine advance_takes (check_takes isNumber (advance_takes ((takes_numberValue hasValue).bind ?_)))
  rintro _ rfl
  exact takes_pure rfl

theorem takes_durationDirective {duration : Duration} (writable : duration.Writable)
    (spells : Spells duration.spelled tokens behind)
    (closes : (reading.front behind).closesElement = true) :
    Takes durationDirective reading (first :: tokens) behind
      fun read => read = .directive (.duration duration) first := by
  refine advance_takes ((takes_durationValue writable _ spells closes).bind ?_)
  rintro _ rfl
  exact takes_pure rfl

theorem takes_tempoDirective (isNumber : number.kind = .number)
    (hasValue : number.number? = some value) :
    Takes tempoDirective reading (first :: number :: behind) behind
      fun read => read = .directive (.tempo value) first := by
  refine advance_takes ((takes_expectNumber _ isNumber hasValue).bind ?_)
  rintro _ rfl
  exact takes_pure rfl

theorem takes_toneDirective (direction : Direction) {name : Syllable} (sounded : name ≠ .rest)
    (text : String) (position : Position) :
    Takes (toneDirective direction) reading (first :: ⟨text, .note name, position⟩ :: behind)
      behind fun read => read = .directive (.tone direction name) first := by
  refine advance_takes (peek_takes ?_)
  cases name with
  | rest => contradiction
  | _ => exact advance_takes (takes_pure rfl)

theorem takes_measureDirective {beats unit : Nat} (nonzero : unit ≠ 0) {slash written : Token}
    (isNumber : number.kind = .number) (hasBeats : number.number? = some beats)
    (isSlash : slash.kind = .slash) (isWritten : written.kind = .number)
    (hasUnit : written.number? = some unit) :
    Takes measureDirective reading (first :: number :: slash :: written :: behind) behind
      fun read => read = .directive (.measure beats unit) first := by
  refine advance_takes ((takes_expectNumber _ isNumber hasBeats).bind ?_)
  rintro _ rfl
  refine expect_takes isSlash (peek_takes ?_)
  refine (takes_expectNumber _ isWritten hasUnit).bind ?_
  rintro _ rfl
  exact ite_takes nonzero (takes_pure rfl)

theorem takes_volumeDirective {equals : Token} (isEquals : equals.kind = .equals)
    (isNumber : number.kind = .number) (hasValue : number.number? = some value) :
    Takes volumeDirective reading (first :: equals :: number :: behind) behind
      fun read => read = .directive (.volume value) first := by
  refine advance_takes (expect_takes isEquals ?_)
  refine (takes_expectNumber _ isNumber hasValue).bind ?_
  rintro _ rfl
  exact takes_pure rfl

theorem takes_intervalDirective (hasValue : first.number? = some value) :
    Takes intervalDirective reading (first :: behind) behind
      fun read => read = .directive (.interval value) first := by
  refine advance_takes ((takes_numberValue hasValue).bind ?_)
  rintro _ rfl
  exact takes_pure rfl

end Directives

theorem takes_directive {setting : Directive} (writable : setting.Writable)
    (inner : Step Expression) (spells : Spells setting.spelled tokens behind)
    (closes : (reading.front behind).closesElement = true) :
    Takes (expressionFrom inner) reading tokens behind
      fun read => ∃ place, read = .directive setting place := by
  cases setting with
  | octave direction amount =>
      cases direction with
      | up =>
          obtain ⟨_, token, rfl, here, number⟩ := spells.signed writable
          exact (takes_octaveDirective .up here number).mono fun _ same => ⟨_, same⟩
      | down =>
          obtain ⟨_, token, rfl, here, number⟩ := spells.signed writable
          exact (takes_octaveDirective .down here number).mono fun _ same => ⟨_, same⟩
  | duration value =>
      obtain ⟨_, left, rfl, rest⟩ := spells.cons
      exact (takes_durationDirective writable rest closes).mono fun _ same => ⟨_, same⟩
  | tempo beatsPerMinute =>
      obtain ⟨_, token, rfl, here, number⟩ := spells.signed writable
      exact (takes_tempoDirective here number).mono fun _ same => ⟨_, same⟩
  | tone direction note =>
      cases direction with
      | up =>
          obtain ⟨_, left, rfl, rest⟩ := spells.cons
          obtain ⟨_, final, rfl, nothing⟩ := rest.syllable
          obtain rfl := nothing.eq_of_nil
          exact (takes_toneDirective .up writable _ _).mono fun _ same => ⟨_, same⟩
      | down =>
          obtain ⟨_, left, rfl, rest⟩ := spells.cons
          obtain ⟨_, final, rfl, nothing⟩ := rest.syllable
          obtain rfl := nothing.eq_of_nil
          exact (takes_toneDirective .down writable _ _).mono fun _ same => ⟨_, same⟩
  | measure beats unit =>
      obtain ⟨smallBeats, smallUnit, nonzero⟩ := writable
      obtain ⟨_, left, rfl, rest⟩ := spells.cons
      obtain ⟨token, others, rfl, here, number, more⟩ := rest.number smallBeats
      obtain ⟨_, written, rfl, isWritten, hasUnit⟩ := more.signed smallUnit
      exact (takes_measureDirective nonzero here number rfl isWritten hasUnit).mono
        fun _ same => ⟨_, same⟩
  | volume value =>
      obtain ⟨_, left, rfl, rest⟩ :=
        spells.word (show Lexeme.wordKind "v".toList = .volume from rfl)
      obtain ⟨position, token, rfl, here, number⟩ := rest.signed writable
      have isEquals : (Token.mk (String.ofList ['=']) .equals position).kind = .equals := rfl
      refine peek_takes ?_
      exact (takes_volumeDirective isEquals here number).mono fun _ same => ⟨_, same⟩
  | interval value =>
      obtain ⟨⟨text, kind, position⟩, left, rfl, here, number, nothing⟩ := spells.number writable
      obtain rfl := nothing.eq_of_nil
      obtain rfl : kind = .number := here
      exact (takes_intervalDirective number).mono fun _ same => ⟨_, same⟩

end Reading

end Solfege
