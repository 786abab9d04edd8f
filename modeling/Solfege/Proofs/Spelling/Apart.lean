import Solfege.Proofs.Spelling.Basic

/-!
Contract: the lexemes of a canonical spelling stand apart.

Owns:
- the lexeme that the spelling of an expression begins with;
- the proof that no lexeme of a score runs on into the next one.

Does not own: how the tokens of a spelling are read.

Only words, numbers and blanks run on. A word or a number is followed by a sign, a blank or
the end of a line, and a blank by the beginning of an element.
-/

namespace Solfege

open Lexeme (Apart IsCut IsWord Stops isBlank continuesWord beginsWord textOf)

namespace Lexeme

section Stops

variable {test : Char → Bool}

theorem stops_cons {first : Char} (refused : test first = false) (rest : List Char) :
    Stops test (first :: rest) := by
  intro character member
  rw [← Option.some.inj member]
  exact refused

theorem stops_sign {character : Char} (refused : test character = false)
    (others : List Lexeme) (behind : List Char) :
    Stops test (textOf (sign character :: others) ++ behind) :=
  stops_cons refused _

theorem stops_blank (refused : test ' ' = false) (others : List Lexeme) (behind : List Char) :
    Stops test (textOf (blank :: others) ++ behind) :=
  stops_cons refused _

theorem stops_lineEnd (refused : test '\n' = false) (others : List Lexeme)
    (behind : List Char) : Stops test (textOf (lineEnd :: others) ++ behind) :=
  stops_cons refused _

theorem stops_quoted (refused : test '"' = false) (text : String) (others : List Lexeme)
    (behind : List Char) : Stops test (textOf (quoted text :: others) ++ behind) :=
  stops_cons refused _

theorem stops_word {text : String} (isWord : IsWord text.toList) (others : List Lexeme)
    (behind : List Char) : Stops isBlank (textOf (word text :: others) ++ behind) := by
  obtain ⟨first, rest, same, begins, _⟩ := isWord
  change Stops isBlank ((text.toList ++ textOf others) ++ behind)
  rw [same]
  exact stops_cons (not_isBlank_of_test begins (by decide)) _

theorem stops_number (value : Nat) (others : List Lexeme) (behind : List Char) :
    Stops isBlank (textOf (number value :: others) ++ behind) := by
  obtain ⟨first, rest, same⟩ :=
    List.exists_cons_of_ne_nil (Nat.toDigits_ne_nil (n := value) (b := 10))
  have isDigit : first.isDigit = true :=
    Nat.isDigit_of_mem_toDigits (b := 10) (n := value) (by decide) (by decide)
      (same ▸ List.mem_cons_self)
  change Stops isBlank ((Nat.toDigits 10 value ++ textOf others) ++ behind)
  rw [same]
  exact stops_cons (not_isBlank_of_test isDigit (by decide)) _

end Stops

end Lexeme

open Lexeme

/-! ### Notes and chords -/

theorem Syllable.isWord_written (name : Syllable) : IsWord name.written.toList := by
  cases name <;> decide

section Notes

variable {behind : List Char} (stops : Stops continuesWord behind)

include stops

theorem Duration.apart_spelled (duration : Duration) : Apart duration.spelled behind := by
  unfold spelled
  split
  · exact ⟨isCut_number _ stops, trivial⟩
  · exact ⟨isCut_number _ (stops_sign rfl _ _), isCut_sign rfl _, isCut_number _ stops, trivial⟩

namespace Note

theorem stops_durationSpelled (duration : Option Duration) :
    Stops continuesWord (textOf (durationSpelled duration) ++ behind) := by
  cases duration with
  | none => exact stops
  | some duration => exact stops_sign rfl _ _

theorem apart_durationSpelled (duration : Option Duration) :
    Apart (durationSpelled duration) behind := by
  cases duration with
  | none => trivial
  | some duration => exact ⟨isCut_sign rfl _, duration.apart_spelled stops⟩

theorem stops_octaveSpelled (octave : Option Nat) :
    Stops continuesWord (textOf (octaveSpelled octave) ++ behind) := by
  cases octave with
  | none => exact stops
  | some octave => exact stops_sign rfl _ _

theorem apart_octaveSpelled (octave : Option Nat) : Apart (octaveSpelled octave) behind := by
  cases octave with
  | none => trivial
  | some octave => exact ⟨isCut_sign rfl _, isCut_number _ stops, trivial⟩

omit stops in
theorem apart_accidentalsSpelled (semitones : Int) :
    Apart (accidentalsSpelled semitones) behind := by
  unfold accidentalsSpelled
  have cut : ∀ text, IsCut (.sign (if 0 ≤ semitones then '+' else '-')) text := by
    intro text
    split
    · exact isCut_sign rfl text
    · exact isCut_sign rfl text
  induction semitones.natAbs with
  | zero => trivial
  | succ count inductionHypothesis => exact ⟨cut _, inductionHypothesis⟩

theorem stops_accidentalsSpelled (semitones : Int) :
    Stops continuesWord (textOf (accidentalsSpelled semitones) ++ behind) := by
  unfold accidentalsSpelled
  cases semitones.natAbs with
  | zero => exact stops
  | succ count =>
      refine stops_sign ?_ _ _
      split <;> rfl

theorem apart_spelled (note : Note) : Apart note.spelled behind := by
  have stopsDuration := stops_durationSpelled stops note.duration
  have stopsOctave := stops_octaveSpelled stopsDuration note.octave
  have stopsAccidentals := stops_accidentalsSpelled stopsOctave note.semitones
  refine ⟨isCut_word note.name.isWord_written ?_, ?_⟩
  · rw [textOf_append, textOf_append, List.append_assoc, List.append_assoc]
    exact stopsAccidentals
  · refine apart_append.mpr ⟨apart_accidentalsSpelled _, apart_append.mpr ⟨?_, ?_⟩⟩
    · exact apart_octaveSpelled stopsDuration note.octave
    · exact apart_durationSpelled stops note.duration

end Note

namespace ChordMember

theorem apart_spelled {member : ChordMember} (writable : member.Writable) :
    Apart member.spelled behind := by
  cases member with
  | note written => exact written.apart_spelled stops
  | reference name token => exact ⟨isCut_word writable.1 stops, trivial⟩

theorem apart_allSpelled {members : List ChordMember}
    (writable : ∀ member ∈ members, member.Writable) : Apart (allSpelled members) behind := by
  induction members with
  | nil => trivial
  | cons member others inductionHypothesis =>
      obtain ⟨here, rest⟩ := List.forall_mem_cons.mp writable
      cases others with
      | nil => exact apart_spelled stops here
      | cons next others =>
          refine apart_append.mpr ⟨apart_spelled (stops_sign rfl _ _) here, ?_⟩
          exact ⟨isCut_sign rfl _, inductionHypothesis rest⟩

end ChordMember

end Notes

/-! ### Directives -/

theorem isWord_volume : IsWord "v".toList := by decide

theorem Directive.apart_spelled (directive : Directive) {behind : List Char}
    (stops : Stops continuesWord behind) : Apart directive.spelled behind := by
  have signed : ∀ {character} (_ : (Token.Kind.delimiter? character).isSome = true) value,
      Apart [.sign character, .number value] behind :=
    fun isDelimiter value => ⟨isCut_sign isDelimiter _, isCut_number value stops, trivial⟩
  have toned : ∀ {character} (_ : (Token.Kind.delimiter? character).isSome = true)
      (name : Syllable), Apart [.sign character, .word name.written] behind :=
    fun isDelimiter name =>
      ⟨isCut_sign isDelimiter _, isCut_word name.isWord_written stops, trivial⟩
  cases directive with
  | octave direction amount =>
      cases direction with
      | up => exact signed rfl amount
      | down => exact signed rfl amount
  | duration value => exact ⟨isCut_sign rfl _, value.apart_spelled stops⟩
  | tempo beatsPerMinute => exact signed rfl beatsPerMinute
  | tone direction note =>
      cases direction with
      | up => exact toned rfl note
      | down => exact toned rfl note
  | measure beats unit =>
      exact ⟨isCut_sign rfl _, isCut_number _ (stops_sign rfl _ _), isCut_sign rfl _,
        isCut_number _ stops, trivial⟩
  | volume value =>
      exact ⟨isCut_word isWord_volume (stops_sign rfl _ _), isCut_sign rfl _,
        isCut_number _ stops, trivial⟩
  | interval value => exact ⟨isCut_number _ stops, trivial⟩

/-! ### Expressions -/

namespace ChordMember

/-- No chord begins with a blank. -/
theorem stops_allSpelled {members : List ChordMember} (nonempty : members ≠ [])
    (writable : ∀ member ∈ members, member.Writable) (behind : List Char) :
    Stops isBlank (textOf (allSpelled members) ++ behind) := by
  obtain ⟨member, others, rfl⟩ := List.exists_cons_of_ne_nil nonempty
  obtain ⟨more, same⟩ := exists_allSpelled_cons member others
  rw [same, textOf_append, List.append_assoc]
  cases member with
  | note written => exact stops_word written.name.isWord_written _ _
  | reference name token => exact stops_word (writable _ List.mem_cons_self).1 _ _

end ChordMember

namespace Expression

/-- No expression begins with a blank. -/
theorem Writable.stops_spelled {expression : Expression} (writable : expression.Writable)
    (behind : List Char) : Stops isBlank (textOf expression.spelled ++ behind) := by
  cases writable with
  | note writable => exact stops_word (Syllable.isWord_written _) _ _
  | @chord members token several writable =>
      exact ChordMember.stops_allSpelled (by intro none; subst none; contradiction) writable behind
  | reference token isName => exact stops_word isName.1 _ _
  | call token isName => exact stops_word isName.1 _ _
  | @directive setting token =>
      cases setting with
      | octave direction amount => cases direction <;> exact stops_sign rfl _ _
      | tone direction note => cases direction <;> exact stops_sign rfl _ _
      | volume value => exact stops_word isWord_volume _ _
      | interval value => exact stops_number _ _ _
      | _ => exact stops_sign rfl _ _
  | _ => exact stops_sign rfl _ _

/-- Wherever the expression is spelled in front of what goes on no word, its lexemes stand
apart. -/
def StandsApart (expression : Expression) : Prop :=
  ∀ behind, Stops continuesWord behind → Apart expression.spelled behind

section Lists

variable {behind : List Char} (stops : Stops continuesWord behind)

include stops

theorem stops_furtherItemsSpelled (items : List Expression) :
    Stops continuesWord (textOf (furtherItemsSpelled items) ++ behind) := by
  cases items with
  | nil => exact stops
  | cons item others => exact stops_blank rfl _ _

theorem apart_furtherItemsSpelled {items : List Expression}
    (writable : ∀ item ∈ items, item.Writable) (each : ∀ item ∈ items, item.StandsApart) :
    Apart (furtherItemsSpelled items) behind := by
  induction items with
  | nil => trivial
  | cons item others inductionHypothesis =>
      obtain ⟨here, rest⟩ := List.forall_mem_cons.mp writable
      obtain ⟨itemApart, othersApart⟩ := List.forall_mem_cons.mp each
      have stopsOthers := stops_furtherItemsSpelled stops others
      refine ⟨isCut_blank ?_, apart_append.mpr ⟨itemApart _ stopsOthers, ?_⟩⟩
      · rw [textOf_append, List.append_assoc]
        exact here.stops_spelled _
      · exact inductionHypothesis rest othersApart

theorem stops_furtherArgumentsSpelled (arguments : List Expression) :
    Stops continuesWord (textOf (furtherArgumentsSpelled arguments) ++ behind) := by
  cases arguments with
  | nil => exact stops
  | cons argument others => exact stops_sign rfl _ _

theorem apart_furtherArgumentsSpelled {arguments : List Expression}
    (writable : ∀ argument ∈ arguments, argument.Writable)
    (each : ∀ argument ∈ arguments, argument.StandsApart) :
    Apart (furtherArgumentsSpelled arguments) behind := by
  induction arguments with
  | nil => trivial
  | cons argument others inductionHypothesis =>
      obtain ⟨here, rest⟩ := List.forall_mem_cons.mp writable
      obtain ⟨argumentApart, othersApart⟩ := List.forall_mem_cons.mp each
      have stopsOthers := stops_furtherArgumentsSpelled stops others
      refine ⟨isCut_sign rfl _, isCut_blank ?_,
        apart_append.mpr ⟨argumentApart _ stopsOthers, ?_⟩⟩
      · rw [textOf_append, List.append_assoc]
        exact here.stops_spelled _
      · exact inductionHypothesis rest othersApart

theorem apart_itemsSpelled {items : List Expression}
    (writable : ∀ item ∈ items, item.Writable) (each : ∀ item ∈ items, item.StandsApart) :
    Apart (itemsSpelled items) behind := by
  cases items with
  | nil => trivial
  | cons item others =>
      obtain ⟨itemApart, othersApart⟩ := List.forall_mem_cons.mp each
      exact apart_append.mpr ⟨itemApart _ (stops_furtherItemsSpelled stops others),
        apart_furtherItemsSpelled stops (List.forall_mem_cons.mp writable).2 othersApart⟩

theorem apart_argumentsSpelled {arguments : List Expression}
    (writable : ∀ argument ∈ arguments, argument.Writable)
    (each : ∀ argument ∈ arguments, argument.StandsApart) :
    Apart (argumentsSpelled arguments) behind := by
  cases arguments with
  | nil => trivial
  | cons argument others =>
      obtain ⟨argumentApart, othersApart⟩ := List.forall_mem_cons.mp each
      exact apart_append.mpr ⟨argumentApart _ (stops_furtherArgumentsSpelled stops others),
        apart_furtherArgumentsSpelled stops (List.forall_mem_cons.mp writable).2 othersApart⟩

end Lists

theorem Writable.standsApart {expression : Expression} (writable : expression.Writable) :
    expression.StandsApart := by
  induction writable with
  | note _ => exact fun behind stops => Note.apart_spelled stops _
  | chord _ _ writable _ => exact fun behind stops => ChordMember.apart_allSpelled stops writable
  | reference _ isName => exact fun behind stops => ⟨isCut_word isName.1 stops, trivial⟩
  | call _ isName writable _ each =>
      intro behind stops
      have closed : Stops continuesWord (textOf [.sign ')'] ++ behind) := stops_sign rfl _ _
      refine ⟨isCut_word isName.1 (stops_sign rfl _ _), isCut_sign rfl _, ?_⟩
      exact apart_append.mpr
        ⟨apart_argumentsSpelled closed writable each, isCut_sign rfl _, trivial⟩
  | repetition _ _ => exact fun behind stops => ⟨isCut_sign rfl _, isCut_number _ stops, trivial⟩
  | hold _ _ _ inside => exact fun behind stops => ⟨isCut_sign rfl _, inside behind stops⟩
  | release _ => exact fun behind _ => ⟨isCut_sign rfl _, trivial⟩
  | group _ writable _ each =>
      intro behind stops
      have closed : Stops continuesWord (textOf [.sign ']'] ++ behind) := stops_sign rfl _ _
      refine ⟨isCut_sign rfl _, ?_⟩
      exact apart_append.mpr ⟨apart_itemsSpelled closed writable each, isCut_sign rfl _, trivial⟩
  | directive _ _ => exact fun behind stops => Directive.apart_spelled _ stops
  | bar _ => exact fun behind _ => ⟨isCut_sign rfl _, trivial⟩

theorem WritableList.apart_furtherItemsSpelled {items : List Expression}
    (writable : WritableList items) {behind : List Char}
    (stops : Stops continuesWord behind) : Apart (furtherItemsSpelled items) behind :=
  Expression.apart_furtherItemsSpelled stops writable.1
    fun item member => (writable.1 item member).standsApart

end Expression

/-! ### Statements -/

namespace Macro

theorem stops_furtherParametersSpelled (parameters : List String) {behind : List Char}
    (stops : Stops continuesWord behind) :
    Stops continuesWord (textOf (furtherParametersSpelled parameters) ++ behind) := by
  cases parameters with
  | nil => exact stops
  | cons parameter others => exact stops_sign rfl _ _

theorem apart_furtherParametersSpelled {parameters : List String}
    (areNames : ∀ parameter ∈ parameters, IsName parameter) {behind : List Char}
    (stops : Stops continuesWord behind) : Apart (furtherParametersSpelled parameters) behind := by
  induction parameters with
  | nil => trivial
  | cons parameter others inductionHypothesis =>
      obtain ⟨here, rest⟩ := List.forall_mem_cons.mp areNames
      refine ⟨isCut_sign rfl _, isCut_blank (stops_word here.1 _ _), ?_,
        inductionHypothesis rest⟩
      exact isCut_word here.1 (stops_furtherParametersSpelled others stops)

theorem apart_parametersSpelled {parameters : List String}
    (areNames : ∀ parameter ∈ parameters, IsName parameter) (behind : List Char) :
    Apart (parametersSpelled parameters) behind := by
  cases parameters with
  | nil => trivial
  | cons parameter others =>
      obtain ⟨here, rest⟩ := List.forall_mem_cons.mp areNames
      have closed : Stops continuesWord (textOf [.sign ')'] ++ behind) := stops_sign rfl _ _
      have stopsOthers := stops_furtherParametersSpelled others closed
      rw [← List.append_assoc, ← textOf_append] at stopsOthers
      refine ⟨isCut_sign rfl _, isCut_word here.1 stopsOthers, ?_⟩
      exact apart_append.mpr
        ⟨apart_furtherParametersSpelled rest closed, isCut_sign rfl _, trivial⟩

theorem stops_parametersSpelled (parameters : List String) {behind : List Char}
    (stops : Stops continuesWord behind) :
    Stops continuesWord (textOf (parametersSpelled parameters) ++ behind) := by
  cases parameters with
  | nil => exact stops
  | cons parameter others => exact stops_sign rfl _ _

end Macro

namespace Movement

theorem apart_tagSpelled {tag : Option String}
    (quotable : ∀ text, tag = some text → IsQuotable text) (behind : List Char) :
    Apart (tagSpelled tag) behind := by
  cases tag with
  | none => trivial
  | some text =>
      exact ⟨isCut_blank (stops_quoted rfl _ _ _), isCut_quoted (quotable text rfl) _, trivial⟩

theorem stops_tagSpelled (tag : Option String) {behind : List Char}
    (stops : Stops continuesWord behind) :
    Stops continuesWord (textOf (tagSpelled tag) ++ behind) := by
  cases tag with
  | none => exact stops
  | some text => exact stops_blank rfl _ _

end Movement

namespace Reading.Statement

theorem isWord_title : IsWord "title".toList := by decide

theorem isWord_copyRight : IsWord "copy_right".toList := by decide

theorem isWord_track : IsWord "track".toList := by decide

theorem apart_metadata {keyword : String} (isWord : IsWord keyword.toList) {text : String}
    (quotable : IsQuotable text) (behind : List Char) :
    Apart [.word keyword, .sign ':', .blank, .quoted text] behind :=
  ⟨isCut_word isWord (stops_sign rfl _ _), isCut_sign rfl _,
    isCut_blank (stops_quoted rfl _ _ _), isCut_quoted quotable _, trivial⟩

/-- The lexemes of a statement stand apart in front of the end of its line. -/
theorem Writable.apart_spelled {statement : Statement} (writable : statement.Writable)
    {behind : List Char} (stops : Stops continuesWord behind) :
    Apart statement.spelled behind := by
  cases statement with
  | metadata entry keyword =>
      cases entry with
      | title text => exact apart_metadata isWord_title writable behind
      | copyRight text => exact apart_metadata isWord_copyRight writable behind
  | track name =>
      exact ⟨isCut_word isWord_track (stops_blank rfl _ _),
        isCut_blank (stops_quoted rfl _ _ _), isCut_quoted writable _, isCut_sign rfl _, trivial⟩
  | definition added =>
      have stopsEquals : Stops continuesWord (textOf (.blank :: .sign '=' ::
          Expression.furtherItemsSpelled added.body) ++ behind) := stops_blank rfl _ _
      have stopsParameters := Macro.stops_parametersSpelled added.parameters stopsEquals
      rw [← List.append_assoc, ← textOf_append] at stopsParameters
      refine ⟨isCut_word writable.name.1 stopsParameters, apart_append.mpr ⟨?_, ?_⟩⟩
      · exact Macro.apart_parametersSpelled writable.parameters _
      · exact ⟨isCut_blank (stops_sign rfl _ _), isCut_sign rfl _,
          writable.body.apart_furtherItemsSpelled stops⟩
  | movement added =>
      have stopsColon : Stops continuesWord (textOf (.sign ':' ::
          Expression.furtherItemsSpelled added.expressions) ++ behind) := stops_sign rfl _ _
      have stopsTag := Movement.stops_tagSpelled added.tag stopsColon
      rw [← List.append_assoc, ← textOf_append] at stopsTag
      refine ⟨isCut_word writable.instrument.1 stopsTag, apart_append.mpr ⟨?_, ?_⟩⟩
      · exact Movement.apart_tagSpelled writable.tag _
      · exact ⟨isCut_sign rfl _, writable.expressions.apart_furtherItemsSpelled stops⟩

theorem apart_allSpelled {statements : List Statement}
    (writable : ∀ statement ∈ statements, statement.Writable) :
    Apart (allSpelled statements) [] := by
  induction statements with
  | nil => trivial
  | cons statement others inductionHypothesis =>
      obtain ⟨here, rest⟩ := List.forall_mem_cons.mp writable
      refine apart_append.mpr ⟨here.apart_spelled (stops_lineEnd rfl _ _), isCut_lineEnd _, ?_⟩
      exact inductionHypothesis rest

end Reading.Statement

end Solfege
