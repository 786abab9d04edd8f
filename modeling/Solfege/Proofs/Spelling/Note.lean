import Solfege.Proofs.Spelling.Directive

/-!
Contract: spelled notes, names and chords are read back.

Owns:
- the parts of a note that may be missing, and what stands in front of them;
- chords, which are read one member inside of the other.

Does not own: calls, which begin with a name too.
-/

namespace Solfege.Reading

variable {reading : Reading} {tokens behind : List Token}

/-! ### Notes -/

theorem stops_of_front {test : Token.Kind → Bool} (stands : test (reading.front behind) = false) :
    Lexeme.Stops (fun token => test token.kind) behind := by
  intro first member
  cases behind with
  | nil => contradiction
  | cons token rest =>
      rw [← Option.some.inj member]
      exact stands

theorem semitonesOf_of_plus {signs : List Token} (plus : ∀ sign ∈ signs, sign.kind = .plus) :
    semitonesOf signs = signs.length := by
  unfold semitonesOf
  suffices raised : ∀ start : Int, signs.foldl (fun semitones sign =>
      if sign.kind = .plus then semitones + 1 else semitones - 1) start =
        start + signs.length by
    simpa using raised 0
  induction signs with
  | nil => intro start; simp
  | cons sign others inductionHypothesis =>
      intro start
      obtain ⟨here, rest⟩ := List.forall_mem_cons.mp plus
      rw [List.foldl_cons, if_pos here, inductionHypothesis rest, List.length_cons]
      omega

theorem semitonesOf_of_dash {signs : List Token} (dash : ∀ sign ∈ signs, sign.kind = .dash) :
    semitonesOf signs = -signs.length := by
  unfold semitonesOf
  suffices lowered : ∀ start : Int, signs.foldl (fun semitones sign =>
      if sign.kind = .plus then semitones + 1 else semitones - 1) start =
        start - signs.length by
    simpa using lowered 0
  induction signs with
  | nil => intro start; simp
  | cons sign others inductionHypothesis =>
      intro start
      obtain ⟨here, rest⟩ := List.forall_mem_cons.mp dash
      have noPlus : sign.kind ≠ .plus := by
        rw [here]
        exact Token.Kind.noConfusion
      rw [List.foldl_cons, if_neg noPlus, inductionHypothesis rest, List.length_cons]
      omega

theorem takes_accidentals {semitones : Int}
    (spells : Spells (Note.accidentalsSpelled semitones) tokens behind)
    (stands : isAccidental (reading.front behind) = false) :
    Takes accidentals reading tokens behind fun read => read = semitones := by
  obtain ⟨signs, rfl, same⟩ := spells
  obtain ⟨count, each⟩ := List.eq_replicate_iff.mp same
  rw [List.length_map] at count
  have kinds : ∀ sign ∈ signs, sign.kind = if 0 ≤ semitones then .plus else .dash := by
    intro sign member
    have spelled := each _ (List.mem_map_of_mem member)
    split at spelled
    · rw [if_pos ‹_›]
      exact (Lexeme.token.inj spelled).1
    · rw [if_neg ‹_›]
      exact (Lexeme.token.inj spelled).1
  have passes : ∀ sign ∈ signs, isAccidental sign.kind = true := by
    intro sign member
    rw [kinds sign member]
    split <;> rfl
  have stops := stops_of_front stands
  refine ⟨semitonesOf signs, ?_, ?_⟩
  · change EStateM.Result.ok (semitonesOf ((signs ++ behind).takeWhile _))
      ((reading.facing (signs ++ behind)).skip isAccidental) = _
    unfold skip facing
    dsimp only
    rw [Lexeme.takeWhile_of_stops passes stops, Lexeme.dropWhile_of_stops passes stops]
  · by_cases raised : 0 ≤ semitones
    · simp only [if_pos raised] at kinds
      rw [semitonesOf_of_plus kinds, count]
      omega
    · simp only [if_neg raised] at kinds
      rw [semitonesOf_of_dash kinds, count]
      omega

theorem takes_octaveSuffix {octave : Option Nat}
    (small : ∀ value, octave = some value → IsSmall value)
    (spells : Spells (Note.octaveSpelled octave) tokens behind)
    (noDot : reading.front behind ≠ .dot) :
    Takes octaveSuffix reading tokens behind fun read => read = octave := by
  cases octave with
  | none =>
      obtain rfl := spells.eq_of_nil
      exact check_not_takes noDot (takes_pure rfl)
  | some value =>
      obtain ⟨_, token, rfl, here, number⟩ := spells.signed (small value rfl)
      refine check_takes rfl (advance_takes ((takes_expectNumber _ here number).bind ?_))
      rintro _ rfl
      exact takes_pure rfl

theorem takes_durationSuffix {duration : Option Duration}
    (writable : ∀ value, duration = some value → value.Writable)
    (spells : Spells (Note.durationSpelled duration) tokens behind)
    (closes : (reading.front behind).closesElement = true) :
    Takes durationSuffix reading tokens behind fun read => read = duration := by
  cases duration with
  | none =>
      obtain rfl := spells.eq_of_nil
      exact check_not_takes (front_ne closes rfl) (takes_pure rfl)
  | some value =>
      obtain ⟨_, left, rfl, rest⟩ := spells.cons
      refine check_takes rfl (advance_takes ?_)
      refine (takes_durationValue (writable value rfl) _ rest closes).bind ?_
      rintro _ rfl
      exact takes_pure rfl

theorem front_octaveSpelled (reading : Reading) {octave : Option Nat}
    (spells : Spells (Note.octaveSpelled octave) tokens behind) :
    reading.front tokens = .dot ∨ tokens = behind := by
  cases octave with
  | none => exact .inr spells.eq_of_nil
  | some value =>
      obtain ⟨_, left, rfl, _⟩ := spells.cons
      exact .inl rfl

theorem front_durationSpelled (reading : Reading) {duration : Option Duration}
    (spells : Spells (Note.durationSpelled duration) tokens behind) :
    reading.front tokens = .colon ∨ tokens = behind := by
  cases duration with
  | none => exact .inr spells.eq_of_nil
  | some value =>
      obtain ⟨_, left, rfl, _⟩ := spells.cons
      exact .inl rfl

/-! ### Chords -/

/-- A single member is an expression of its own, and several are a chord. -/
def ofMembers (token : Token) : List ChordMember → Expression
  | [.note written] => .note written
  | [.reference name place] => .reference name place
  | members => .chord members token

theorem ofMembers_cons_cons (token : Token) (first second : ChordMember)
    (others : List ChordMember) :
    ofMembers token (first :: second :: others) = .chord (first :: second :: others) token := by
  cases first <;> rfl

/-- The expression is what the members are together, but for the tokens. -/
def Joins (members : List ChordMember) (read : Expression) : Prop :=
  ∃ token found, read = ofMembers token found ∧
    found.map ChordMember.erased = members.map ChordMember.erased

theorem joins_note {written found : Note} (same : found.erased = written.erased) :
    Joins [.note written] (.note found) := by
  refine ⟨default, [.note found], rfl, ?_⟩
  rw [List.map_singleton, List.map_singleton, ChordMember.erased, ChordMember.erased, same]

theorem joins_reference (name : String) (token place : Token) :
    Joins [.reference name token] (.reference name place) :=
  ⟨default, [.reference name place], rfl, rfl⟩

/-- A chord is read from a slash on, if what stands behind the slash is. -/
theorem takes_chordFrom {inner : Step Expression} {member found next : ChordMember}
    {others : List ChordMember} {slash : Token} (same : found.erased = member.erased)
    (token : Token)
    (reads : Takes inner (reading.inside .chord) tokens behind (Joins (next :: others))) :
    Takes (chordFrom inner found token) reading (slash :: tokens) behind
      (Joins (member :: next :: others)) := by
  refine advance_takes ((takes_within reads).bind ?_)
  rintro _ ⟨place, more, rfl, sameMore⟩
  obtain ⟨second, rest, rfl, _, _⟩ := List.map_eq_cons_iff.mp sameMore
  have joined : Joins (member :: next :: others)
      (.chord (found :: second :: rest) token) := by
    refine ⟨token, found :: second :: rest, (ofMembers_cons_cons _ _ _ _).symm, ?_⟩
    rw [List.map_cons, same, sameMore]
    rfl
  cases rest with
  | nil => cases second <;> exact takes_pure joined
  | cons third rest =>
      rw [ofMembers_cons_cons]
      exact takes_pure joined

/-- A name that no slash and no parenthesis follows is read as such. -/
theorem takes_nameFrom (inner : Step Expression) (name : Token)
    (closes : (reading.front behind).closesElement = true) :
    Takes (nameFrom inner) reading (name :: behind) behind
      fun read => read = .reference name.text name := by
  refine advance_takes (peek_takes ?_)
  split
  · exact absurd ‹_› (front_ne closes rfl)
  · exact absurd ‹_› (front_ne closes rfl)
  · exact takes_pure rfl

/-- What is read behind the accidentals and the octave of a note decides how it is read. -/
theorem takes_noteFrom {inner : Step Expression} {name : Syllable} {token : Token}
    {semitones : Int} {octave : Option Nat} {middle : List Token} {made : Expression → Prop}
    (small : ∀ value, octave = some value → IsSmall value)
    (spells : Spells (Note.accidentalsSpelled semitones ++ Note.octaveSpelled octave)
      tokens middle)
    (noDot : reading.front middle ≠ .dot) (noSign : isAccidental (reading.front middle) = false)
    (onward : Takes (do
      if ← check .slash then
        chordFrom inner (.note ⟨name, semitones, octave, none, token⟩) token
      else
        let duration ← durationSuffix
        pure (.note ⟨name, semitones, octave, duration, token⟩)) reading middle behind made) :
    Takes (noteFrom inner name) reading (token :: tokens) behind made := by
  obtain ⟨signed, signs, suffix⟩ := spells.append
  have stands : isAccidental (reading.front signed) = false := by
    rcases front_octaveSpelled reading suffix with dot | rfl
    · rw [dot]
      rfl
    · exact noSign
  refine advance_takes ((takes_accidentals signs stands).bind ?_)
  rintro _ rfl
  refine (takes_octaveSuffix small suffix noDot).bind ?_
  rintro _ rfl
  exact onward

theorem not_isAccidental {kind : Token.Kind} (closes : kind.closesElement = true) :
    isAccidental kind = false := by
  cases kind with
  | plus => contradiction
  | dash => contradiction
  | _ => rfl

theorem takes_note {written : Note} (writable : written.Writable) (inner : Step Expression)
    (spells : Spells written.spelled tokens behind)
    (closes : (reading.front behind).closesElement = true) :
    Takes (expressionFrom inner) reading tokens behind (Joins [.note written]) := by
  obtain ⟨position, left, rfl, rest⟩ := spells.syllable
  rw [← List.append_assoc] at rest
  obtain ⟨middle, head, duration⟩ := rest.append
  have stands : reading.front middle ≠ .slash ∧ reading.front middle ≠ .dot ∧
      isAccidental (reading.front middle) = false := by
    rcases front_durationSpelled reading duration with colon | rfl
    · rw [colon]
      exact ⟨Token.Kind.noConfusion, Token.Kind.noConfusion, rfl⟩
    · exact ⟨front_ne closes rfl, front_ne closes rfl, not_isAccidental closes⟩
  obtain ⟨noSlash, noDot, noSign⟩ := stands
  refine peek_takes (takes_noteFrom writable.octave head noDot noSign ?_)
  refine check_not_takes noSlash ((takes_durationSuffix writable.duration duration closes).bind ?_)
  rintro _ rfl
  exact takes_pure (joins_note rfl)

theorem takes_reference {name : String} (isName : IsName name) (place : Token)
    (inner : Step Expression) (spells : Spells [.word name] tokens behind)
    (closes : (reading.front behind).closesElement = true) :
    Takes (expressionFrom inner) reading tokens behind (Joins [.reference name place]) := by
  obtain ⟨position, left, rfl, nothing⟩ := spells.name isName
  obtain rfl := nothing.eq_of_nil
  refine peek_takes ((takes_nameFrom inner _ closes).mono ?_)
  rintro _ rfl
  exact joins_reference name place _

/-- A member in front of a slash is the first of a chord. -/
theorem takes_firstMember {inner : Step Expression} {member next : ChordMember}
    {others : List ChordMember} {slash : String} {place : Position} {left : List Token}
    (writable : member.Writable) (undelayed : member.duration? = none)
    (spells : Spells member.spelled tokens (⟨slash, .slash, place⟩ :: left))
    (reads : Takes inner (reading.inside .chord) left behind (Joins (next :: others))) :
    Takes (expressionFrom inner) reading tokens behind (Joins (member :: next :: others)) := by
  cases member with
  | note written =>
      obtain ⟨name, semitones, octave, duration, token⟩ := written
      obtain rfl : duration = none := undelayed
      obtain ⟨position, rest, rfl, more⟩ := spells.syllable
      rw [← List.append_assoc] at more
      obtain ⟨middle, head, nothing⟩ := more.append
      obtain rfl := nothing.eq_of_nil
      refine peek_takes (takes_noteFrom writable.octave head Token.Kind.noConfusion rfl ?_)
      exact check_takes rfl (takes_chordFrom rfl _ reads)
  | reference name token =>
      obtain ⟨position, rest, rfl, nothing⟩ := spells.name writable
      obtain rfl := nothing.eq_of_nil
      exact peek_takes (advance_takes (peek_takes (takes_chordFrom rfl _ reads)))

/-- The members of a chord are read one inside the other. -/
theorem takes_members {members : List ChordMember} {bound : Nat} (nonempty : members ≠ [])
    (writable : ∀ member ∈ members, member.Writable)
    (undelayed : ∀ member ∈ members.dropLast, member.duration? = none)
    (spells : Spells (ChordMember.allSpelled members) tokens behind)
    (enough : tokens.length < bound)
    (closes : (reading.front behind).closesElement = true) :
    Takes (expression bound) reading tokens behind (Joins members) := by
  induction members generalizing reading tokens bound with
  | nil => contradiction
  | cons member others inductionHypothesis =>
      obtain ⟨within, rfl⟩ : ∃ within, bound = within + 1 :=
        Nat.exists_eq_succ_of_ne_zero (by omega)
      obtain ⟨here, rest⟩ := List.forall_mem_cons.mp writable
      cases others with
      | nil =>
          cases member with
          | note written => exact takes_note here _ spells closes
          | reference name token => exact takes_reference here token _ spells closes
      | cons next others =>
          obtain ⟨middle, first, more⟩ := spells.append
          obtain ⟨place, left, rfl, further⟩ := more.cons
          have shorter := first.length_le
          rw [List.length_cons] at shorter
          have undelayedRest : ∀ other ∈ (next :: others).dropLast, other.duration? = none :=
            fun other inRest => undelayed other (List.mem_cons_of_mem _ inRest)
          have reads : Takes (expression within) (reading.inside .chord) left behind
              (Joins (next :: others)) :=
            inductionHypothesis (List.cons_ne_nil _ _) rest undelayedRest further (by omega) closes
          exact takes_firstMember here (undelayed member List.mem_cons_self) first reads

theorem erased_ofMembers (token : Token) (members : List ChordMember) :
    (ofMembers token members).erased = ofMembers default (members.map ChordMember.erased) := by
  cases members with
  | nil => rfl
  | cons first others =>
      cases others with
      | nil => cases first <;> rfl
      | cons second others =>
          rw [ofMembers_cons_cons, List.map_cons, List.map_cons, ofMembers_cons_cons]
          rfl

theorem Joins.erased_eq {members : List ChordMember} {read : Expression}
    (joins : Joins members read) (token : Token) :
    read.erased = (ofMembers token members).erased := by
  obtain ⟨place, found, rfl, same⟩ := joins
  rw [erased_ofMembers, erased_ofMembers, same]

end Solfege.Reading
