import Solfege.Reading.Statement

/-!
Contract: tokens in other columns, and what is made of them.

Owns:
- the same place in another column, on the line where it was;
- the same token there, and problems, expressions, scores and readings with all their tokens and
  places moved in this way;
- the proof that what a token means does not depend on its column.

Does not own: that reading keeps to this.

Columns are given for every place, and not for every token, because a diagnostic holds a place of
its own.
-/

namespace Solfege

section Moved

variable (columns : Position → Nat)

/-! ### Places and tokens -/

/-- The place in its new column. -/
def Position.moved (position : Position) : Position :=
  ⟨position.line, columns position⟩

/-- The token in its new column. -/
def Token.moved (token : Token) : Token :=
  { token with position := token.position.moved columns }

/-! ### Problems -/

def Expectation.moved : Expectation → Expectation
  | colonAfter keyword => colonAfter (keyword.moved columns)
  | textAfter keyword => textAfter (keyword.moved columns)
  | endOfStatementAfter keyword => endOfStatementAfter (keyword.moved columns)
  | definitionAfter name => definitionAfter (name.moved columns)
  | equalsAfterMacro name => equalsAfterMacro (name.moved columns)
  | colonAfterMovement instrument => colonAfterMovement (instrument.moved columns)
  | equalsAfter keyword => equalsAfter (keyword.moved columns)
  | noteAfter sign => noteAfter (sign.moved columns)
  | durationAfter colon => durationAfter (colon.moved columns)
  | other => other

def SyntaxProblem.moved : SyntaxProblem → SyntaxProblem
  | unexpected expected found => unexpected (expected.moved columns) (found.moved columns)
  | numberOutOfRange number => numberOutOfRange (number.moved columns)
  | other => other

def Problem.moved : Problem → Problem
  | ofSyntax problem => ofSyntax (problem.moved columns)
  | other => other

def Diagnostic.moved (diagnostic : Diagnostic) : Diagnostic :=
  ⟨diagnostic.problem.moved columns, diagnostic.position.moved columns⟩

/-! ### Expressions -/

def Note.moved (note : Note) : Note :=
  { note with token := note.token.moved columns }

def ChordMember.moved : ChordMember → ChordMember
  | note written => note (written.moved columns)
  | reference name token => reference name (token.moved columns)

mutual

/-- The expression with all its tokens in their new columns, at any depth. -/
def Expression.moved : Expression → Expression
  | .note written => .note (written.moved columns)
  | .chord members token => .chord (members.map (ChordMember.moved columns)) (token.moved columns)
  | .reference name token => .reference name (token.moved columns)
  | .call name arguments token => .call name (movedAll arguments) (token.moved columns)
  | .repetition count token => .repetition count (token.moved columns)
  | .hold inner token => .hold inner.moved (token.moved columns)
  | .release token => .release (token.moved columns)
  | .group items token => .group (movedAll items) (token.moved columns)
  | .directive setting token => .directive setting (token.moved columns)
  | .bar token => .bar (token.moved columns)
  | .placeholder token => .placeholder (token.moved columns)

def Expression.movedAll : List Expression → List Expression
  | [] => []
  | item :: rest => item.moved :: movedAll rest

end

/-! ### Scores -/

def Macro.moved (definition : Macro) : Macro :=
  { definition with
      body := definition.body.map (Expression.moved columns)
      token := definition.token.moved columns }

def Movement.moved (movement : Movement) : Movement :=
  { movement with
      expressions := movement.expressions.map (Expression.moved columns)
      token := movement.token.moved columns }

def Track.moved (track : Track) : Track :=
  { track with movements := track.movements.map (Movement.moved columns) }

/-- The score with all its tokens and places in their new columns. -/
def Score.moved (score : Score) : Score :=
  { score with
      macros := score.macros.map (Macro.moved columns)
      tracks := score.tracks.map (Track.moved columns)
      diagnostics := score.diagnostics.map (Diagnostic.moved columns) }

/-! ### Readings -/

namespace Reading

def Statement.moved : Statement → Statement
  | metadata entry keyword => metadata entry (keyword.moved columns)
  | track name => track name
  | definition written => definition (written.moved columns)
  | movement written => movement (written.moved columns)

def Halt.moved : Halt → Halt
  | recoverable diagnostic => recoverable (diagnostic.moved columns)
  | fatal diagnostic => fatal (diagnostic.moved columns)

/-- The reading of the same tokens in their new columns. -/
def moved (reading : Reading) : Reading where
  rest := reading.rest.map (Token.moved columns)
  last := reading.last.moved columns
  contexts := reading.contexts
  diagnostics := reading.diagnostics.map (Diagnostic.moved columns)

end Reading

end Moved

variable {columns : Position → Nat}

/-! ### What a token means -/

namespace Token

@[simp] theorem kind_moved (token : Token) : (token.moved columns).kind = token.kind := rfl

@[simp] theorem number?_moved (token : Token) : (token.moved columns).number? = token.number? :=
  rfl

@[simp] theorem isTerminated_moved (token : Token) :
    (token.moved columns).isTerminated = token.isTerminated := rfl

@[simp] theorem unquoted_moved (token : Token) :
    (token.moved columns).unquoted = token.unquoted := rfl

/-- A token that keeps its column is the same token. -/
theorem moved_eq_self {token : Token}
    (stays : columns token.position = token.position.column) : token.moved columns = token := by
  unfold moved Position.moved
  rw [stays]

end Token

/-! ### Expressions -/

namespace Expression

theorem movedAll_eq_map (items : List Expression) :
    movedAll columns items = items.map (Expression.moved columns) := by
  induction items with
  | nil => rfl
  | cons item rest inductionHypothesis =>
      rw [movedAll, List.map_cons, inductionHypothesis]

theorem moved_call (name : String) (arguments : List Expression) (token : Token) :
    (call name arguments token).moved columns =
      .call name (arguments.map (Expression.moved columns)) (token.moved columns) := by
  rw [moved, movedAll_eq_map]

theorem moved_group (items : List Expression) (token : Token) :
    (group items token).moved columns =
      .group (items.map (Expression.moved columns)) (token.moved columns) := by
  rw [moved, movedAll_eq_map]

theorem token_moved (expression : Expression) :
    (expression.moved columns).token = expression.token.moved columns := by
  cases expression <;> rfl

end Expression

theorem Reading.canBeHeld_moved (expression : Expression) :
    Reading.canBeHeld (expression.moved columns) = Reading.canBeHeld expression := by
  cases expression <;> rfl

/-! ### Readings -/

namespace Reading

theorem current_moved (reading : Reading) :
    (reading.moved columns).current = reading.current.moved columns := by
  unfold current moved
  cases reading.rest <;> rfl

theorem dropWhile_moved (test : Token.Kind → Bool) (tokens : List Token) :
    (tokens.map (Token.moved columns)).dropWhile (fun token => test token.kind) =
      (tokens.dropWhile fun token => test token.kind).map (Token.moved columns) :=
  List.dropWhile_map

theorem takeWhile_moved (test : Token.Kind → Bool) (tokens : List Token) :
    (tokens.map (Token.moved columns)).takeWhile (fun token => test token.kind) =
      (tokens.takeWhile fun token => test token.kind).map (Token.moved columns) :=
  List.takeWhile_map

theorem skip_moved (test : Token.Kind → Bool) (reading : Reading) :
    (reading.moved columns).skip test = (reading.skip test).moved columns := by
  unfold skip moved
  rw [dropWhile_moved]

theorem resumption_moved (test : Token.Kind → Bool) (depth : Nat) (tokens : List Token) :
    resumption test depth (tokens.map (Token.moved columns)) =
      (resumption test depth tokens).map (Token.moved columns) := by
  induction tokens generalizing depth with
  | nil => rfl
  | cons token rest inductionHypothesis =>
      rw [List.map_cons, resumption, resumption, Token.kind_moved]
      split
      · rfl
      · split <;> exact inductionHypothesis _

theorem semitonesOf_moved (signs : List Token) :
    semitonesOf (signs.map (Token.moved columns)) = semitonesOf signs := by
  unfold semitonesOf
  rw [List.foldl_map]
  rfl

/-- Tokens that the end of the file closes are read from it in its new column. -/
theorem ofTokens_moved {tokens : List Token} {final : Token}
    (last : tokens.getLast? = some final) (ends : final.kind = .endOfFile) :
    ofTokens (tokens.map (Token.moved columns)) = (ofTokens tokens).moved columns := by
  unfold ofTokens
  rw [List.getLast?_map, last, Option.map_some]
  dsimp only
  rw [if_pos ends, if_pos (show (final.moved columns).kind = .endOfFile from ends),
    ← List.map_dropLast]
  rfl

end Reading

end Solfege
