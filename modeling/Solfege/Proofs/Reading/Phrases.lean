import Solfege.Proofs.Reading.Conduct
import Solfege.Reading.Expression

/-!
Contract: expressions without expressions inside, as phrases of signs and numbers.

Owns:
- phrases, which describe part by part what is read behind the first token of such an
  expression, or behind the name of a note;
- the phrase of each directive, of the bar line, of the postfix signs and of what may stand
  behind the name of a note;
- the proof that the grammar reads these phrases, and what else begins an expression.

Does not own: expressions with expressions inside.

A property of reading is proved of phrases once for each sort of part. It then holds of all
that is read by phrases, and a directive that is read in another way has another phrase and
no other proof.
-/

namespace Solfege.Reading

/-! ### Phrases -/

/-- The signs that stand inside of phrases. -/
inductive PhraseSign where
  | equals
  | slash
  | colon
  | dot

def PhraseSign.kind : PhraseSign → Token.Kind
  | equals => .equals
  | slash => .slash
  | colon => .colon
  | dot => .dot

/-- What is read behind a token, which is the anchor of what is expected there. -/
inductive Phrase (α : Type) where
  /-- Nothing more is read. -/
  | done (value : α)
  /-- The anchor itself is a number. -/
  | anchored (next : Nat → Phrase α)
  | number (expected : Token → Expectation) (next : Nat → Phrase α)
  | nonzero (expected : Token → Expectation) (problem : SyntaxProblem) (next : Nat → Phrase α)
  | sign (written : PhraseSign) (expected : Token → Expectation) (next : Phrase α)
  | pitch (expected : Token → Expectation) (next : Syllable → Phrase α)
  /-- A sign that may be missing. It is the anchor of what is read behind it. -/
  | choice (written : PhraseSign) (behind other : Phrase α)
  /-- A number that may be missing. -/
  | amount (next : Nat → Phrase α) (other : Phrase α)
  /-- The list that is being read holds an expression already. -/
  | following (problem : SyntaxProblem) (next : Phrase α)

namespace Phrase

variable {α : Type}

def run : Phrase α → Token → Step α
  | done value, _ => pure value
  | anchored next, anchor => do
      let value ← numberValue anchor
      (next value).run anchor
  | number expected next, anchor => do
      let value ← expectNumber (expected anchor)
      (next value).run anchor
  | nonzero expected problem next, anchor => do
      let written ← peek
      let value ← expectNumber (expected anchor)
      if value = 0 then
        refuse (Diagnostic.syntaxAt written problem)
      else
        (next value).run anchor
  | sign written expected next, anchor => do
      let _ ← expect written.kind (expected anchor)
      next.run anchor
  | pitch expected next, anchor => do
      let found ← peek
      match found.kind with
      | .note .rest => unexpected (expected anchor)
      | .note name => do
          let _ ← advance
          (next name).run anchor
      | _ => unexpected (expected anchor)
  | choice written behind other, anchor => do
      if ← check written.kind then
        let read ← advance
        behind.run read
      else
        other.run anchor
  | amount next other, anchor => do
      if ← check .number then
        let value ← numberValue (← advance)
        (next value).run anchor
      else
        other.run anchor
  | following problem next, anchor => do
      if ← followsExpression then
        next.run anchor
      else
        refuse (Diagnostic.syntaxAt anchor problem)

/-- The phrase that reads the same and makes something else of it. -/
def map {β : Type} (change : α → β) : Phrase α → Phrase β
  | done value => .done (change value)
  | anchored next => .anchored fun value => (next value).map change
  | number expected next => .number expected fun value => (next value).map change
  | nonzero expected problem next => .nonzero expected problem fun value => (next value).map change
  | sign written expected next => .sign written expected (next.map change)
  | pitch expected next => .pitch expected fun name => (next name).map change
  | choice written behind other => .choice written (behind.map change) (other.map change)
  | amount next other => .amount (fun value => (next value).map change) (other.map change)
  | following problem next => .following problem (next.map change)

theorem run_map {β : Type} (change : α → β) (phrase : Phrase α) (anchor : Token) :
    (phrase.map change).run anchor = phrase.run anchor >>= fun value => pure (change value) := by
  induction phrase generalizing anchor with
  | done value => rfl
  | anchored next inductionHypothesis =>
      simp only [map, run, bind_assoc, inductionHypothesis]
  | number expected next inductionHypothesis =>
      simp only [map, run, bind_assoc, inductionHypothesis]
  | nonzero expected problem next inductionHypothesis =>
      simp only [map, run, bind_assoc, inductionHypothesis]
      refine bind_congr fun written => bind_congr fun value => ?_
      split <;> rfl
  | sign written expected next inductionHypothesis =>
      simp only [map, run, bind_assoc, inductionHypothesis]
  | pitch expected next inductionHypothesis =>
      simp only [map, run, bind_assoc, inductionHypothesis]
      refine bind_congr fun found => ?_
      cases kind : found.kind with
      | note name => cases name <;> rfl
      | _ => rfl
  | choice written behind other behindHypothesis otherHypothesis =>
      simp only [map, run, bind_assoc, behindHypothesis, otherHypothesis]
      refine bind_congr fun present => ?_
      split <;> rfl
  | amount next other nextHypothesis otherHypothesis =>
      simp only [map, run, bind_assoc, nextHypothesis, otherHypothesis]
      refine bind_congr fun present => ?_
      split
      · simp only [bind_assoc]
      · rfl
  | following problem next inductionHypothesis =>
      simp only [map, run, bind_assoc, inductionHypothesis]
      refine bind_congr fun follows => ?_
      split <;> rfl

/-- Whatever is read, what the phrase makes of it is as it should be. That the list being read
holds an expression already is known where the phrase asks for it. -/
def Makes (opened : Prop) (made : α → Prop) : Phrase α → Prop
  | done value => made value
  | anchored next => ∀ value, (next value).Makes opened made
  | number _ next => ∀ value, (next value).Makes opened made
  | nonzero _ _ next => ∀ value, value ≠ 0 → (next value).Makes opened made
  | sign _ _ next => next.Makes opened made
  | pitch _ next => ∀ name, name ≠ .rest → (next name).Makes opened made
  | choice _ behind other => behind.Makes opened made ∧ other.Makes opened made
  | amount next other => (∀ value, (next value).Makes opened made) ∧ other.Makes opened made
  | following _ next => opened → next.Makes opened made

theorem makes_of_forall {opened : Prop} {made : α → Prop} {phrase : Phrase α}
    (all : ∀ value, made value) : phrase.Makes opened made := by
  induction phrase with
  | done value => exact all value
  | anchored next inductionHypothesis => exact inductionHypothesis
  | number expected next inductionHypothesis => exact inductionHypothesis
  | nonzero expected problem next inductionHypothesis =>
      exact fun value _ => inductionHypothesis value
  | sign written expected next inductionHypothesis => exact inductionHypothesis
  | pitch expected next inductionHypothesis => exact fun name _ => inductionHypothesis name
  | choice written behind other behindHypothesis otherHypothesis =>
      exact ⟨behindHypothesis, otherHypothesis⟩
  | amount next other nextHypothesis otherHypothesis => exact ⟨nextHypothesis, otherHypothesis⟩
  | following problem next inductionHypothesis => exact fun _ => inductionHypothesis

end Phrase

/-! ### Lengths and octaves -/

variable {α : Type}

def fractionPhrase (make : Duration → α) (numerator : Nat) : Phrase α :=
  .nonzero (fun _ => .denominator) .zeroDenominator fun denominator =>
    .done (make ⟨numerator, denominator⟩)

def durationPhrase (make : Duration → α) : Phrase α :=
  .choice .slash (fractionPhrase make 1)
    (.number .durationAfter fun beats =>
      .choice .slash (fractionPhrase make beats) (.done (make (Duration.beats beats))))

def octaveSuffixPhrase : Phrase (Option Nat) :=
  .choice .dot (.number (fun _ => .octaveNumber) fun octave => .done (some octave)) (.done none)

def durationSuffixPhrase : Phrase (Option Duration) :=
  .choice .colon (durationPhrase some) (.done none)

/-- What is read as a length has no denominator of zero. -/
theorem makes_durationPhrase {opened : Prop} {made : α → Prop} {make : Duration → α}
    (sound : ∀ value, value.denominator ≠ 0 → made (make value)) :
    (durationPhrase make).Makes opened made :=
  ⟨fun _ nonzero => sound _ nonzero, fun _ =>
    ⟨fun _ nonzero => sound _ nonzero, sound _ Nat.one_ne_zero⟩⟩

theorem fraction_eq (numerator : Nat) :
    fraction numerator = advance >>= (fractionPhrase id numerator).run := rfl

theorem durationValue_eq (colon : Token) :
    durationValue colon = (durationPhrase id).run colon := rfl

theorem octaveSuffix_eq (anchor : Token) : octaveSuffix = octaveSuffixPhrase.run anchor := rfl

/-! ### Expressions of one token -/

/-- What an expression is, apart from its only token. -/
inductive Leaf where
  | directive (setting : Directive)
  | bar
  | repetition (count : Nat)
  | release

def Leaf.expression (token : Token) : Leaf → Expression
  | directive setting => .directive setting token
  | bar => .bar token
  | repetition count => .repetition count token
  | release => .release token

def volumePhrase : Phrase Leaf :=
  .sign .equals .equalsAfter
    (.number (fun _ => .volumeLevel) fun value => .done (.directive (.volume value)))

def tonePhrase (direction : Direction) : Phrase Leaf :=
  .pitch .noteAfter fun name => .done (.directive (.tone direction name))

def octavePhrase (direction : Direction) : Phrase Leaf :=
  .amount (fun amount => .done (.directive (.octave direction amount)))
    (.done (.directive (.octave direction 0)))

def measurePhrase : Phrase Leaf :=
  .number (fun _ => .beatCount) fun beats => .sign .slash (fun _ => .measureSlash)
    (.nonzero (fun _ => .beatUnit) .zeroMeasureUnit fun unit =>
      .done (.directive (.measure beats unit)))

def tempoPhrase : Phrase Leaf :=
  .number (fun _ => .tempo) fun tempo => .done (.directive (.tempo tempo))

def intervalPhrase : Phrase Leaf :=
  .anchored fun value => .done (.directive (.interval value))

def repetitionPhrase : Phrase Leaf :=
  .following .repetitionFollowsNothing
    (.number (fun _ => .repeatCount) fun count => .done (.repetition count))

def releasePhrase : Phrase Leaf := .following .releaseFollowsNothing (.done .release)

/-- The phrase that a kind of token begins, if it begins one. -/
def leafPhrase? : Token.Kind → Option (Phrase Leaf)
  | .volume => some volumePhrase
  | .plus => some (tonePhrase .up)
  | .dash => some (tonePhrase .down)
  | .greater => some (octavePhrase .up)
  | .less => some (octavePhrase .down)
  | .colon => some (durationPhrase fun value => .directive (.duration value))
  | .bang => some measurePhrase
  | .caret => some tempoPhrase
  | .pipe => some (.done .bar)
  | .number => some intervalPhrase
  | .asterisk => some repetitionPhrase
  | .rightParen => some releasePhrase
  | _ => none

/-- Reads an expression of one token, with the phrase that the token begins. -/
def leafFrom (phrase : Phrase Leaf) : Step Expression := do
  let token ← advance
  let leaf ← phrase.run token
  pure (leaf.expression token)

/-! ### The grammar reads phrases -/

theorem leafFrom_eq (phrase : Phrase Leaf) :
    leafFrom phrase = advance >>= fun token => (phrase.map (Leaf.expression token)).run token :=
  bind_congr fun token => (phrase.run_map _ token).symm

/-- A length is read by its phrase, whatever becomes of it. -/
theorem durationValue_bind_eq (make : Duration → α) (colon : Token) :
    (durationValue colon >>= fun value => pure (make value)) = (durationPhrase make).run colon :=
  ((durationPhrase id).run_map make colon).symm

theorem durationSuffix_eq (anchor : Token) :
    durationSuffix = durationSuffixPhrase.run anchor := by
  refine bind_congr fun present => ?_
  split
  · exact bind_congr fun colon => durationValue_bind_eq some colon
  · rfl

theorem durationDirective_eq :
    durationDirective = leafFrom (durationPhrase fun value => .directive (.duration value)) := by
  rw [leafFrom_eq]
  exact bind_congr fun colon => durationValue_bind_eq _ colon

theorem toneDirective_eq (direction : Direction) :
    toneDirective direction = leafFrom (tonePhrase direction) := by
  refine Eq.trans (bind_congr fun sign => ?_) (leafFrom_eq _).symm
  simp only [tonePhrase, Phrase.map, Phrase.run]
  refine bind_congr fun found => ?_
  cases found.kind with
  | note name => cases name <;> rfl
  | _ => rfl

theorem octaveDirective_eq (direction : Direction) :
    octaveDirective direction = leafFrom (octavePhrase direction) :=
  (leafFrom_eq (octavePhrase direction)).symm

theorem volumeDirective_eq : volumeDirective = leafFrom volumePhrase :=
  (leafFrom_eq volumePhrase).symm

theorem measureDirective_eq : measureDirective = leafFrom measurePhrase :=
  (leafFrom_eq measurePhrase).symm

theorem tempoDirective_eq : tempoDirective = leafFrom tempoPhrase :=
  (leafFrom_eq tempoPhrase).symm

theorem intervalDirective_eq : intervalDirective = leafFrom intervalPhrase :=
  (leafFrom_eq intervalPhrase).symm

theorem barLine_eq : barLine = leafFrom (.done .bar) := rfl

theorem repetitionSign_eq : repetitionSign = leafFrom repetitionPhrase :=
  (leafFrom_eq repetitionPhrase).symm

theorem releaseSign_eq : releaseSign = leafFrom releasePhrase :=
  (leafFrom_eq releasePhrase).symm

/-! ### What begins an expression -/

/-- What is read where a kind of token begins an expression. -/
def expressionAt (inner : Step Expression) (kind : Token.Kind) : Step Expression :=
  match leafPhrase? kind with
  | some phrase => leafFrom phrase
  | none =>
      match kind with
      | .leftParen => holdFrom inner
      | .leftBracket => groupFrom inner
      | .word => nameFrom inner
      | .note name => noteFrom inner name
      | _ => unexpected .expression

theorem expressionFrom_eq (inner : Step Expression) :
    expressionFrom inner = peek >>= fun first => expressionAt inner first.kind := by
  refine bind_congr fun first => ?_
  unfold expressionAt
  cases first.kind with
  | volume => exact volumeDirective_eq
  | plus => exact toneDirective_eq .up
  | dash => exact toneDirective_eq .down
  | greater => exact octaveDirective_eq .up
  | less => exact octaveDirective_eq .down
  | colon => exact durationDirective_eq
  | bang => exact measureDirective_eq
  | caret => exact tempoDirective_eq
  | pipe => exact barLine_eq
  | number => exact intervalDirective_eq
  | asterisk => exact repetitionSign_eq
  | rightParen => exact releaseSign_eq
  | _ => rfl

/-- What holds of each sort of expression holds of whatever a token begins. -/
theorem expressionAt_cases {inner : Step Expression}
    {motive : Token.Kind → Step Expression → Prop}
    (leaf : ∀ kind phrase, leafPhrase? kind = some phrase → motive kind (leafFrom phrase))
    (hold : motive .leftParen (holdFrom inner))
    (group : motive .leftBracket (groupFrom inner))
    (word : motive .word (nameFrom inner))
    (note : ∀ name, motive (.note name) (noteFrom inner name))
    (other : ∀ kind, motive kind (unexpected .expression)) (kind : Token.Kind) :
    motive kind (expressionAt inner kind) := by
  unfold expressionAt
  split
  · exact leaf _ _ ‹_›
  · split
    · exact hold
    · exact group
    · exact word
    · exact note _
    · exact other _

end Solfege.Reading
