import Solfege.Proofs.Reading.Conduct

/-!
Contract: readings that differ in the text of one number.

Owns:
- a number that has no value, another text that is put in its place, and the problems that are
  reported at it;
- readings beside each other: they differ in the text of the number that is still to come, or
  it was skipped behind a problem and they do not differ;
- how readings stay beside each other when tokens are read and skipped.

Does not own: what a step of reading makes of them.
-/

namespace Solfege

/-- A problem of syntax at a number: it is out of range, or something else was expected in its
place. -/
def Token.IsFault (number : Token) (diagnostic : Diagnostic) : Prop :=
  diagnostic = Diagnostic.syntaxAt number (.numberOutOfRange number) ∨
    ∃ expected, diagnostic = Diagnostic.syntaxAt number (.unexpected expected number)

/-- A fault is a problem of syntax that is reported where the number stands. -/
theorem Token.IsFault.kind_and_position {number : Token} {diagnostic : Diagnostic}
    (fault : number.IsFault diagnostic) :
    diagnostic.kind = .syntactic ∧ diagnostic.position = number.position := by
  rcases fault with rfl | ⟨_, rfl⟩ <;> exact ⟨rfl, rfl⟩

/-- A number token that has no value, and a text to put in its place. -/
structure Oversized where
  token : Token
  isNumber : token.kind = .number
  noValue : token.number? = none
  text : String

namespace Oversized

/-- The token with the other text. -/
def replacement (number : Oversized) : Token :=
  { number.token with text := number.text }

/-- A token of another kind is not the number. -/
theorem ne_of_kind (number : Oversized) {token : Token} {kind : Token.Kind}
    (isKind : token.kind = kind) (other : kind ≠ .number) : token ≠ number.token := by
  intro same
  rw [same, number.isNumber] at isKind
  exact other isKind.symm

end Oversized

namespace Reading

/-! ### Readings beside each other -/

/-- One reading has the number among its tokens and the other one its replacement, or they are
the same and have a problem already. -/
inductive Beside (number : Oversized) : Reading → Reading → Prop where
  | ahead (front back : List Token) (last : Token) (contexts : List Context)
      (diagnostics : List Diagnostic) :
      Beside number ⟨front ++ number.token :: back, last, contexts, diagnostics⟩
        ⟨front ++ number.replacement :: back, last, contexts, diagnostics⟩
  | passed (reading : Reading) (reported : reading.diagnostics ≠ []) :
      Beside number reading reading

variable {number : Oversized}

/-- A problem is reported at the number. -/
def Faulted (number : Oversized) (reading : Reading) : Prop :=
  ∃ diagnostic ∈ reading.diagnostics, number.token.IsFault diagnostic

theorem Faulted.mono {before after : Reading} (faulted : Faulted number before)
    (kept : before.diagnostics ⊆ after.diagnostics) : Faulted number after := by
  obtain ⟨diagnostic, member, fault⟩ := faulted
  exact ⟨diagnostic, kept member, fault⟩

namespace Beside

variable {before twin : Reading}

theorem contexts_eq (beside : Beside number before twin) : twin.contexts = before.contexts := by
  cases beside <;> rfl

theorem length_eq (beside : Beside number before twin) :
    twin.rest.length = before.rest.length := by
  cases beside with
  | ahead front back last contexts diagnostics =>
      rw [List.length_append, List.length_append]
      rfl
  | passed reading reported => rfl

/-- What the two stand at is the same, or the number and its replacement. -/
theorem current_cases (beside : Beside number before twin) :
    twin.current = before.current ∨
      before.current = number.token ∧ twin.current = number.replacement := by
  cases beside with
  | ahead front back last contexts diagnostics =>
      cases front with
      | nil => exact .inr ⟨rfl, rfl⟩
      | cons first rest => exact .inl rfl
  | passed reading reported => exact .inl rfl

theorem current_eq (beside : Beside number before twin)
    (otherwise : before.current ≠ number.token) : twin.current = before.current :=
  beside.current_cases.resolve_right fun atNumber => otherwise atNumber.1

theorem kind_eq (beside : Beside number before twin) :
    twin.current.kind = before.current.kind := by
  rcases beside.current_cases with same | ⟨here, there⟩
  · rw [same]
  · rw [here, there]
    rfl

theorem advanced (beside : Beside number before twin)
    (otherwise : before.current ≠ number.token) :
    Beside number before.advanced twin.advanced := by
  cases beside with
  | ahead front back last contexts diagnostics =>
      cases front with
      | nil => exact absurd rfl otherwise
      | cons first rest => exact .ahead rest back last contexts diagnostics
  | passed reading reported => exact .passed _ reported

theorem in_contexts (beside : Beside number before twin) (contexts : List Context) :
    Beside number { before with contexts := contexts } { twin with contexts := contexts } := by
  cases beside with
  | ahead front back last _ diagnostics => exact .ahead front back last contexts diagnostics
  | passed reading reported => exact .passed _ reported

theorem inside (beside : Beside number before twin) (context : Context) :
    Beside number (before.inside context) (twin.inside context) := by
  unfold Reading.inside
  rw [beside.contexts_eq]
  exact beside.in_contexts _

theorem reported (beside : Beside number before twin) (diagnostic : Diagnostic) :
    Beside number { before with diagnostics := before.diagnostics ++ [diagnostic] }
      { twin with diagnostics := twin.diagnostics ++ [diagnostic] } := by
  cases beside with
  | ahead front back last contexts diagnostics => exact .ahead front back last contexts _
  | passed reading reported =>
      exact .passed _ (List.append_ne_nil_of_right_ne_nil _ (List.cons_ne_nil _ _))

/-- What passes the test in front of the number is the same, and the number stays. -/
theorem skip (beside : Beside number before twin) {test : Token.Kind → Bool}
    (stops : test .number = false) :
    before.rest.takeWhile (fun token => test token.kind) =
        twin.rest.takeWhile (fun token => test token.kind) ∧
      Beside number (before.skip test) (twin.skip test) := by
  cases beside with
  | passed reading reported => exact ⟨rfl, .passed _ reported⟩
  | ahead front back last contexts diagnostics =>
      have stopsHere : test number.token.kind = false := by
        rw [number.isNumber]
        exact stops
      have stopsThere : test number.replacement.kind = false := stopsHere
      unfold Reading.skip
      dsimp only
      induction front with
      | nil =>
          rw [List.nil_append, List.nil_append, List.takeWhile_cons, List.takeWhile_cons,
            List.dropWhile_cons, List.dropWhile_cons, stopsHere, stopsThere]
          exact ⟨rfl, .ahead [] back last contexts diagnostics⟩
      | cons first rest inductionHypothesis =>
          rw [List.cons_append, List.cons_append, List.takeWhile_cons, List.takeWhile_cons,
            List.dropWhile_cons, List.dropWhile_cons]
          cases test first.kind with
          | true => exact ⟨congrArg (first :: ·) inductionHypothesis.1, inductionHypothesis.2⟩
          | false => exact ⟨rfl, .ahead (first :: rest) back last contexts diagnostics⟩

theorem resumption_of_number {test : Token.Kind → Bool} (stops : test .number = false)
    {token : Token} (isNumber : token.kind = .number) (depth : Nat) (rest : List Token) :
    resumption test depth (token :: rest) = resumption test depth rest := by
  rw [resumption, isNumber, stops, Bool.and_false]
  exact if_neg (by decide)

/-- Reading resumes in front of the number or behind it. -/
theorem resumption_cases {test : Token.Kind → Bool} (stops : test .number = false) (depth : Nat)
    (front back : List Token) :
    (∃ left, resumption test depth (front ++ number.token :: back) = left ++ number.token :: back ∧
      resumption test depth (front ++ number.replacement :: back) =
        left ++ number.replacement :: back) ∨
      resumption test depth (front ++ number.token :: back) =
        resumption test depth (front ++ number.replacement :: back) := by
  induction front generalizing depth with
  | nil =>
      have isNumber : number.replacement.kind = .number := number.isNumber
      refine .inr ?_
      rw [List.nil_append, List.nil_append, resumption_of_number stops number.isNumber,
        resumption_of_number stops isNumber]
  | cons first rest inductionHypothesis =>
      rw [List.cons_append, List.cons_append, resumption, resumption]
      split
      · exact .inl ⟨first :: rest, rfl, rfl⟩
      · split
        all_goals exact inductionHypothesis _

/-- Where there is a problem already, the number may be skipped. -/
theorem resumed (beside : Beside number before twin) {test : Token.Kind → Bool}
    (stops : test .number = false) (reported : before.diagnostics ≠ []) :
    Beside number { before with rest := resumption test 0 before.rest }
      { twin with rest := resumption test 0 twin.rest } := by
  cases beside with
  | passed reading reported => exact .passed _ reported
  | ahead front back last contexts diagnostics =>
      rcases resumption_cases stops 0 front back with ⟨left, here, there⟩ | same
      · dsimp only
        rw [here, there]
        exact .ahead left back last contexts diagnostics
      · dsimp only
        rw [same]
        exact .passed _ reported

end Beside

end Reading

end Solfege
