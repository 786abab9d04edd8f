import Solfege.Score.Basic

/-!
Contract: repetitions as copies.

Owns:
- the size of an expression once its groups are spliced;
- the replacement of each repetition and the element in front of it by copies of that
  element, in lists, groups, arguments and holds;
- the limit on the size of a list, which a repetition may not pass.

Does not own: the splicing of groups or the inlining of macros.

The limit is on sizes of spliced lists, so that repeated groups inside repeated groups
cannot pass it together. A repetition that would is refused and leaves one copy.
-/

namespace Solfege.Expression

/-! ### Sizes -/

mutual

/-- The number of expressions that an expression becomes once groups are spliced. -/
def flatSize : Expression → Nat
  | .group items _ => flatSizeFrom 0 items
  | _ => 1

/-- The number that a list of expressions becomes, and a number to begin with. -/
def flatSizeFrom (size : Nat) : List Expression → Nat
  | [] => size
  | item :: rest => flatSizeFrom (size + flatSize item) rest

end

/-! ### Copies -/

/-- A list on its way to one without repetitions. -/
structure Unrolling where
  /-- The elements so far, the latest first. -/
  made : List Expression
  /-- The size of those elements once groups are spliced. -/
  size : Nat
  /-- The problems so far. -/
  problems : List Diagnostic

namespace Unrolling

/-- Adds an element, which had problems of its own inside. -/
def add (state : Unrolling) (element : Expression × List Diagnostic) : Unrolling where
  made := element.1 :: state.made
  size := state.size + element.1.flatSize
  problems := state.problems ++ element.2

def fail (state : Unrolling) (token : Token) (problem : ExpansionProblem) : Unrolling :=
  { state with problems := state.problems ++ [Diagnostic.expansionAt token problem] }

/-- Puts copies of the latest element in its place. -/
def repeatLatest (limit count : Nat) (token : Token) (state : Unrolling) : Unrolling :=
  match state.made with
  | [] => state.fail token .nothingToRepeat
  | latest :: earlier =>
      let others := state.size - latest.flatSize
      let size := others + latest.flatSize * count
      if limit < size then
        state.fail token (.repetitionTooLarge count limit)
      else
        { state with made := List.replicate count latest ++ earlier, size := size }

end Unrolling

mutual

/-- Expands the repetitions inside an expression. -/
def unrollWithin (limit : Nat) : Expression → Expression × List Diagnostic
  | .group items token =>
      let inside := unrollOnto limit ⟨[], 0, []⟩ items
      (.group inside.made.reverse token, inside.problems)
  | .call name arguments token =>
      let (unrolled, problems) := unrollArguments limit arguments
      (.call name unrolled token, problems)
  | .hold inner token =>
      let (unrolled, problems) := unrollWithin limit inner
      (.hold unrolled token, problems)
  | other => (other, [])

/-- Expands the repetitions inside each argument of a call. -/
def unrollArguments (limit : Nat) : List Expression → List Expression × List Diagnostic
  | [] => ([], [])
  | argument :: rest =>
      let (unrolled, problems) := unrollWithin limit argument
      let (others, furtherProblems) := unrollArguments limit rest
      (unrolled :: others, problems ++ furtherProblems)

/-- Expands the repetitions of a list behind what is already made. -/
def unrollOnto (limit : Nat) (state : Unrolling) : List Expression → Unrolling
  | [] => state
  | .repetition count token :: rest =>
      unrollOnto limit (state.repeatLatest limit count token) rest
  | element :: rest => unrollOnto limit (state.add (unrollWithin limit element)) rest

end

theorem repetition_or_plain (element : Expression) :
    (∃ count token, element = .repetition count token) ∨
      ∀ count token, element ≠ .repetition count token := by
  cases element with
  | repetition count token => exact .inl ⟨count, token, rfl⟩
  | _ => right; intro count token same; contradiction

theorem unrollOnto_cons_of_plain {limit : Nat} {state : Unrolling}
    {element : Expression} {rest : List Expression}
    (plain : ∀ count token, element ≠ .repetition count token) :
    unrollOnto limit state (element :: rest) =
      unrollOnto limit (state.add (unrollWithin limit element)) rest := by
  cases element with
  | repetition count token => exact absurd rfl (plain count token)
  | _ => rfl

/-- Expands the repetitions of a list and of everything in it. -/
def unroll (limit : Nat) (list : List Expression) : List Expression × List Diagnostic :=
  let state := unrollOnto limit ⟨[], 0, []⟩ list
  (state.made.reverse, state.problems)

end Solfege.Expression
