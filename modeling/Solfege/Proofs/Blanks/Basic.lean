import Solfege.Proofs.Reading.Conduct
import Solfege.Proofs.Reading.Nesting

/-!
Contract: tokens of which some blanks stand for others.

Owns:
- the place of a token: how many groups are open in front of it, and whether it stands behind
  a name or in the blanks behind the opening parenthesis of a hold;
- lists of tokens that differ in blanks only, each of which stands in a group and not in the
  blanks of a hold;
- what two such lists have in common when blanks and signs are taken off their fronts.

Does not own: what is read from such lists.

A parenthesis opens a hold unless it stands directly behind a name, where it opens the
arguments of a call. Behind a hold's parenthesis a reader skips spaces and stops at a newline.
So the place has to tell the two apart.
-/

namespace Solfege.Reading

/-! ### Places -/

/-- What stands in front of a token. -/
inductive Front where
  /-- A name, directly. -/
  | name
  /-- The opening parenthesis of a hold, with nothing but blanks between. -/
  | hold
  | other
deriving DecidableEq

/-- What stands in front of the token behind one of the given kind. -/
def Front.behind (front : Front) : Token.Kind → Front
  | .word => .name
  | .leftParen => if front = .name then .other else .hold
  | .space | .newline => if front = .hold then .hold else .other
  | _ => .other

/-- The number of groups that are open behind a token of the given kind. -/
def groupsBehind (groups : Nat) : Token.Kind → Nat
  | .leftBracket => groups + 1
  | .rightBracket => groups - 1
  | _ => groups

structure Place where
  groups : Nat
  front : Front

theorem isWhitespace_cases {kind : Token.Kind} (blank : isWhitespace kind = true) :
    kind = .space ∨ kind = .newline := by
  cases kind <;> first | contradiction | simp

namespace Place

/-- The place behind a token of the given kind. -/
def behind (place : Place) (kind : Token.Kind) : Place :=
  ⟨groupsBehind place.groups kind, place.front.behind kind⟩

/-- The place behind a list of tokens. -/
def behindAll (place : Place) (tokens : List Token) : Place :=
  tokens.foldl (fun here token => here.behind token.kind) place

/-- A blank at this place is what it is. -/
def Fixed (place : Place) : Prop := place.groups = 0 ∨ place.front = .hold

theorem groups_behind_of_isWhitespace {kind : Token.Kind} (place : Place)
    (blank : isWhitespace kind = true) : (place.behind kind).groups = place.groups := by
  rcases isWhitespace_cases blank with rfl | rfl <;> rfl

theorem Fixed.behind {place : Place} (fixed : place.Fixed) {kind : Token.Kind}
    (blank : isWhitespace kind = true) : (place.behind kind).Fixed := by
  rcases fixed with outside | held
  · exact .inl ((place.groups_behind_of_isWhitespace blank).trans outside)
  · apply Or.inr
    rcases isWhitespace_cases blank with rfl | rfl <;> exact if_pos held

end Place

/-! ### Exchanged blanks -/

/-- From a place on, the tokens are the same but for blanks, and those of them that differ
stand in a group and not in the blanks of a hold. -/
inductive Exchanged : Place → List Token → List Token → Prop where
  | nil (place : Place) : Exchanged place [] []
  | same {place : Place} {tokens others : List Token} (token : Token)
      (rest : Exchanged (place.behind token.kind) tokens others) :
      Exchanged place (token :: tokens) (token :: others)
  | blank {place : Place} {tokens others : List Token} {first second : Token}
      (isBlank : isWhitespace first.kind = true) (otherBlank : isWhitespace second.kind = true)
      (free : ¬ place.Fixed) (rest : Exchanged (place.behind first.kind) tokens others) :
      Exchanged place (first :: tokens) (second :: others)

/-- Two tokens are the same, or both are blanks. -/
def Mates (first second : Token) : Prop :=
  first = second ∨ (isWhitespace first.kind = true ∧ isWhitespace second.kind = true)

theorem Mates.eq {first second : Token} (mates : Mates first second)
    (stands : isWhitespace first.kind = false) : first = second :=
  mates.resolve_right fun blanks => by simp [stands] at blanks

theorem Mates.kind_eq_iff {first second : Token} (mates : Mates first second)
    {kind : Token.Kind} (stands : isWhitespace kind = false) :
    first.kind = kind ↔ second.kind = kind := by
  rcases mates with rfl | ⟨blank, otherBlank⟩
  · exact Iff.rfl
  · constructor
    · rintro rfl
      simp [stands] at blank
    · rintro rfl
      simp [stands] at otherBlank

/-! ### Tests -/

/-- A test that no bracket or name passes, and that blanks pass or do not, all of them. -/
structure Neutral (test : Token.Kind → Bool) : Prop where
  alike : test .space = test .newline
  leftBracket : test .leftBracket = false
  rightBracket : test .rightBracket = false
  leftParen : test .leftParen = false
  word : test .word = false

theorem Neutral.eq_of_isWhitespace {test : Token.Kind → Bool} (neutral : Neutral test)
    {first second : Token.Kind} (blank : isWhitespace first = true)
    (other : isWhitespace second = true) : test first = test second := by
  have alike := neutral.alike
  rcases isWhitespace_cases blank with rfl | rfl
  all_goals rcases isWhitespace_cases other with rfl | rfl <;> simp [alike]

/-- The place behind tokens of which none is a bracket or a name: as many groups are open, and no
name stands in front. -/
theorem Neutral.behind {test : Token.Kind → Bool} (neutral : Neutral test) (place : Place)
    {kind : Token.Kind} (passes : test kind = true) :
    (place.behind kind).groups = place.groups ∧ (place.behind kind).front ≠ .name := by
  obtain ⟨_, leftBracket, rightBracket, leftParen, word⟩ := neutral
  cases kind with
  | leftBracket => simp [leftBracket] at passes
  | rightBracket => simp [rightBracket] at passes
  | leftParen => simp [leftParen] at passes
  | word => simp [word] at passes
  | space | newline =>
      refine ⟨rfl, ?_⟩
      simp only [Place.behind, Front.behind]
      split <;> simp
  | _ => exact ⟨rfl, by simp [Place.behind, Front.behind]⟩

/-! ### What exchanged tokens have in common -/

namespace Exchanged

variable {place : Place} {tokens others : List Token}

theorem refl (place : Place) (tokens : List Token) : Exchanged place tokens tokens := by
  induction tokens generalizing place with
  | nil => exact .nil place
  | cons token rest inductionHypothesis => exact .same token (inductionHypothesis _)

theorem length_eq (exchanged : Exchanged place tokens others) :
    tokens.length = others.length := by
  induction exchanged with
  | nil place => rfl
  | same token _ inductionHypothesis => exact congrArg Nat.succ inductionHypothesis
  | blank _ _ _ _ inductionHypothesis => exact congrArg Nat.succ inductionHypothesis

/-- One blank is exchanged for another. -/
theorem of_blank {front : List Token} {first second : Token}
    (isBlank : isWhitespace first.kind = true) (otherBlank : isWhitespace second.kind = true)
    (free : ¬ (place.behindAll front).Fixed) (behind : List Token) :
    Exchanged place (front ++ first :: behind) (front ++ second :: behind) := by
  induction front generalizing place with
  | nil => exact .blank isBlank otherBlank free (refl _ behind)
  | cons token rest inductionHypothesis => exact .same token (inductionHypothesis free)

/-! ### The first tokens -/

theorem mates_head (exchanged : Exchanged place tokens others) (last : Token) :
    Mates (tokens.headD last) (others.headD last) := by
  cases exchanged with
  | nil => exact .inl rfl
  | same token _ => exact .inl rfl
  | blank isBlank otherBlank _ _ => exact .inr ⟨isBlank, otherBlank⟩

theorem head_eq (exchanged : Exchanged place tokens others) (fixed : place.Fixed)
    (last : Token) : tokens.headD last = others.headD last := by
  cases exchanged with
  | nil => rfl
  | same token _ => rfl
  | blank _ _ free _ => exact absurd fixed free

theorem tail (exchanged : Exchanged place tokens others) (last : Token) :
    Exchanged (place.behind (tokens.headD last).kind) tokens.tail others.tail := by
  cases exchanged with
  | nil => exact .nil _
  | same token rest => exact rest
  | blank _ _ _ rest => exact rest

/-! ### Tokens that are skipped -/

/-- Behind what a neutral test skips, the tokens are exchanged as they were. -/
theorem dropWhile {test : Token.Kind → Bool} (neutral : Neutral test)
    (exchanged : Exchanged place tokens others) :
    ∃ there, Exchanged there (tokens.dropWhile fun token => test token.kind)
        (others.dropWhile fun token => test token.kind) ∧
      there.groups = place.groups ∧
      (there.front = .name → there = place ∧
        tokens.dropWhile (fun token => test token.kind) = tokens) := by
  induction exchanged with
  | nil place => exact ⟨place, .nil place, rfl, fun _ => ⟨rfl, rfl⟩⟩
  | @same place tokens others token rest inductionHypothesis =>
      by_cases passes : test token.kind = true
      · obtain ⟨there, onward, groups, unmoved⟩ := inductionHypothesis
        obtain ⟨sameGroups, noName⟩ := neutral.behind place passes
        simp only [List.dropWhile_cons, if_pos passes]
        refine ⟨there, onward, groups.trans sameGroups, fun name => absurd ?_ noName⟩
        rw [← (unmoved name).1]
        exact name
      · simp only [List.dropWhile_cons, if_neg passes]
        exact ⟨place, .same token rest, rfl, fun _ => ⟨rfl, trivial⟩⟩
  | @blank place tokens others first second isBlank otherBlank free rest inductionHypothesis =>
      have alike := neutral.eq_of_isWhitespace isBlank otherBlank
      by_cases passes : test first.kind = true
      · obtain ⟨there, onward, groups, unmoved⟩ := inductionHypothesis
        obtain ⟨sameGroups, noName⟩ := neutral.behind place passes
        simp only [List.dropWhile_cons, ← alike, if_pos passes]
        refine ⟨there, onward, groups.trans sameGroups, fun name => absurd ?_ noName⟩
        rw [← (unmoved name).1]
        exact name
      · simp only [List.dropWhile_cons, ← alike, if_neg passes]
        exact ⟨place, .blank isBlank otherBlank free rest, rfl, fun _ => ⟨rfl, trivial⟩⟩

/-- Blanks that are what they are may be skipped by any test. -/
theorem dropWhile_of_fixed {test : Token.Kind → Bool}
    (blanks : ∀ kind, test kind = true → isWhitespace kind = true)
    (exchanged : Exchanged place tokens others) (fixed : place.Fixed) :
    ∃ there, Exchanged there (tokens.dropWhile fun token => test token.kind)
        (others.dropWhile fun token => test token.kind) ∧
      there.groups = place.groups ∧ there.Fixed := by
  induction exchanged with
  | nil place => exact ⟨place, .nil place, rfl, fixed⟩
  | @same place tokens others token rest inductionHypothesis =>
      by_cases passes : test token.kind = true
      · have blank := blanks _ passes
        obtain ⟨there, onward, groups, still⟩ := inductionHypothesis (fixed.behind blank)
        simp only [List.dropWhile_cons, if_pos passes]
        exact ⟨there, onward, groups.trans (place.groups_behind_of_isWhitespace blank), still⟩
      · simp only [List.dropWhile_cons, if_neg passes]
        exact ⟨place, .same token rest, rfl, fixed⟩
  | blank _ _ free _ _ => exact absurd fixed free

/-- The same signs stand in front. -/
theorem takeWhile_eq {test : Token.Kind → Bool}
    (stands : ∀ kind, isWhitespace kind = true → test kind = false)
    (exchanged : Exchanged place tokens others) :
    (tokens.takeWhile fun token => test token.kind) =
      others.takeWhile fun token => test token.kind := by
  induction exchanged with
  | nil place => rfl
  | same token _ inductionHypothesis =>
      rw [List.takeWhile_cons, List.takeWhile_cons, inductionHypothesis]
  | blank isBlank otherBlank _ _ _ =>
      rw [List.takeWhile_cons_of_neg (by simp [stands _ isBlank]),
        List.takeWhile_cons_of_neg (by simp [stands _ otherBlank])]

end Exchanged

end Solfege.Reading
