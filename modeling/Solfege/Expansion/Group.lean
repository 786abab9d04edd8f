import Solfege.Score.Basic

/-!
Contract: groups spliced into the lists that they stand in.

Owns:
- the splicing of a list, at any depth of groups;
- the groups that stay: an argument of a call counts as one, so a group that is an
  argument is kept and only its items are spliced.

Does not own: the inlining of macros, to which splicing makes no difference.
-/

namespace Solfege.Expression

mutual

/-- Splices an expression behind what is already spliced, which is given latest first. -/
def spliceOnto (spliced : List Expression) : Expression → List Expression
  | .group items _ => spliceAllOnto spliced items
  | .call name arguments token => .call name (settleAll arguments) token :: spliced
  | .hold inner token => .hold (settle inner) token :: spliced
  | other => other :: spliced

def spliceAllOnto (spliced : List Expression) : List Expression → List Expression
  | [] => spliced
  | item :: rest => spliceAllOnto (spliceOnto spliced item) rest

/-- Splices within an expression that has to stay a single one. -/
def settle : Expression → Expression
  | .group items token => .group (spliceAllOnto [] items).reverse token
  | .call name arguments token => .call name (settleAll arguments) token
  | .hold inner token => .hold (settle inner) token
  | other => other

/-- Splices within each argument of a call. -/
def settleAll : List Expression → List Expression
  | [] => []
  | argument :: rest => settle argument :: settleAll rest

end

/-- Splices the groups of a list. -/
def flatten (list : List Expression) : List Expression :=
  (spliceAllOnto [] list).reverse

/-! ### Lists by their elements -/

/-- What stands in a list where an expression is spliced into it. -/
def opened : Expression → List Expression
  | .group items _ => items
  | other => [other]

mutual

theorem spliceOnto_eq (spliced : List Expression) (expression : Expression) :
    spliceOnto spliced expression = (opened (settle expression)).reverse ++ spliced := by
  cases expression with
  | group items token =>
      rw [spliceOnto, settle, opened, List.reverse_reverse]
      exact spliceAllOnto_eq spliced items
  | _ => rfl

theorem spliceAllOnto_eq (spliced list : List Expression) :
    spliceAllOnto spliced list = spliceAllOnto [] list ++ spliced := by
  cases list with
  | nil => rfl
  | cons item rest =>
      rw [spliceAllOnto, spliceAllOnto, spliceAllOnto_eq, spliceOnto_eq,
        spliceAllOnto_eq (spliceOnto [] item), spliceOnto_eq [], List.append_nil,
        List.append_assoc]

end

@[simp] theorem flatten_nil : flatten [] = [] := rfl

/-- Each element is settled and then opened. -/
theorem flatten_cons (item : Expression) (rest : List Expression) :
    flatten (item :: rest) = opened (settle item) ++ flatten rest := by
  unfold flatten
  rw [spliceAllOnto, spliceAllOnto_eq, spliceOnto_eq, List.append_nil, List.reverse_append,
    List.reverse_reverse]

theorem flatten_append (left right : List Expression) :
    flatten (left ++ right) = flatten left ++ flatten right := by
  induction left with
  | nil => rfl
  | cons item rest inductionHypothesis =>
      rw [List.cons_append, flatten_cons, flatten_cons, inductionHypothesis, List.append_assoc]

theorem settle_group (items : List Expression) (token : Token) :
    settle (.group items token) = .group (flatten items) token := rfl

theorem settleAll_eq (arguments : List Expression) :
    settleAll arguments = arguments.map settle := by
  induction arguments with
  | nil => rfl
  | cons argument rest inductionHypothesis =>
      rw [settleAll, inductionHypothesis, List.map_cons]

/-- Whatever settles to the same is spliced in alike. -/
theorem flatten_singleton (expression : Expression) :
    flatten [expression] = opened (settle expression) := by
  rw [flatten_cons, flatten_nil, List.append_nil]

theorem token_settle (expression : Expression) :
    (settle expression).token = expression.token := by
  cases expression <;> rfl

end Solfege.Expression
