import Mathlib.Data.List.Sort
import Solfege.Score.Basic

/-!
Contract: where the tokens of expressions lie in a list of tokens.

Owns:
- the places of an expression, one for each of its tokens in reading order;
- expressions that lie apart, each behind all that the earlier ones hold;
- expressions that lie between two places;
- the proof that the places never go back, and that they are those of all tokens.

Does not own: how expressions are read.

A place is an index into the list. Two tokens of one expression may share a place: the
first member of a chord has the token of the chord, and a placeholder for the arguments
of a call has that of the call.
-/

namespace Solfege.Expression

/-- Whether an expression has a single token. -/
def isSingle : Expression → Bool
  | .chord _ _ => false
  | .call _ _ _ => false
  | .hold _ _ => false
  | .group _ _ => false
  | _ => true

mutual

/-- The tokens of the expression lie at the places. What it holds lies behind its own
token or at it, and what it holds side by side lies apart. -/
inductive Lies (tokens : List Token) : Expression → List Nat → Prop where
  | single {expression : Expression} {place : Nat} (alone : expression.isSingle = true)
      (here : tokens[place]? = some expression.token) : Lies tokens expression [place]
  | chord {members : List ChordMember} {token : Token} {place : Nat} {places : List Nat}
      (here : tokens[place]? = some token)
      (each : places.map (tokens[·]?) = members.map fun member => some member.token)
      (apart : places.Pairwise (· < ·)) (behind : ∀ other ∈ places, place ≤ other) :
      Lies tokens (.chord members token) (place :: places)
  | call {name : String} {arguments : List Expression} {token : Token} {place : Nat}
      {places : List Nat} (here : tokens[place]? = some token)
      (inside : LieApart tokens arguments places) (behind : ∀ other ∈ places, place ≤ other) :
      Lies tokens (.call name arguments token) (place :: places)
  | hold {inner : Expression} {token : Token} {place : Nat} {places : List Nat}
      (here : tokens[place]? = some token)
      (inside : Lies tokens inner places) (behind : ∀ other ∈ places, place ≤ other) :
      Lies tokens (.hold inner token) (place :: places)
  | group {items : List Expression} {token : Token} {place : Nat} {places : List Nat}
      (here : tokens[place]? = some token)
      (inside : LieApart tokens items places) (behind : ∀ other ∈ places, place ≤ other) :
      Lies tokens (.group items token) (place :: places)

/-- The tokens of the expressions lie at the places, those of each expression before all
places of the next one. -/
inductive LieApart (tokens : List Token) : List Expression → List Nat → Prop where
  | nil : LieApart tokens [] []
  | cons {first : Expression} {rest : List Expression} {places others : List Nat}
      (lies : Lies tokens first places) (onward : LieApart tokens rest others)
      (apart : ∀ place ∈ places, ∀ other ∈ others, place < other) :
      LieApart tokens (first :: rest) (places ++ others)

end

variable {tokens : List Token}

/-! ### All tokens -/

/-- The tokens of the members of a chord are collected one after the other. -/
theorem reverse_foldl_token (members : List ChordMember) (collected : List Token) :
    (members.foldl (fun tokens member => member.token :: tokens) collected).reverse =
      collected.reverse ++ members.map ChordMember.token := by
  induction members generalizing collected with
  | nil => exact (List.append_nil _).symm
  | cons member others inductionHypothesis =>
      rw [List.foldl_cons, inductionHypothesis]
      simp

theorem collectTokens_of_isSingle {expression : Expression}
    (alone : expression.isSingle = true) (collected : List Token) :
    collectTokens collected expression = expression.token :: collected := by
  cases expression with
  | chord members token => contradiction
  | call name arguments token => contradiction
  | hold inner token => contradiction
  | group items token => contradiction
  | _ => rfl

mutual

/-- The places are those of the tokens that are collected. -/
theorem Lies.map_collectTokens {expression : Expression} {places : List Nat} :
    Lies tokens expression places → ∀ collected,
      (collectTokens collected expression).reverse.map some =
        collected.reverse.map some ++ places.map (tokens[·]?)
  | .single alone here, collected => by
      rw [collectTokens_of_isSingle alone]
      simp [here]
  | .chord here each _ _, collected => by
      rw [collectTokens, reverse_foldl_token]
      simp [here, each]
  | .call here inside _, collected => by
      rw [collectTokens, inside.map_collectAllTokens]
      simp [here]
  | .hold here inside _, collected => by
      rw [collectTokens, inside.map_collectTokens]
      simp [here]
  | .group here inside _, collected => by
      rw [collectTokens, inside.map_collectAllTokens]
      simp [here]

theorem LieApart.map_collectAllTokens {expressions : List Expression} {places : List Nat} :
    LieApart tokens expressions places → ∀ collected,
      (collectAllTokens collected expressions).reverse.map some =
        collected.reverse.map some ++ places.map (tokens[·]?)
  | .nil, collected => (List.append_nil _).symm
  | .cons lies onward _, collected => by
      rw [collectAllTokens, onward.map_collectAllTokens, lies.map_collectTokens]
      simp

end

/-- The places are those of all tokens of the expressions, in reading order. -/
theorem LieApart.map_allTokens {expressions : List Expression} {places : List Nat}
    (lie : LieApart tokens expressions places) :
    places.map (tokens[·]?) = (allTokens expressions).map some := by
  have collected := lie.map_collectAllTokens []
  simpa [allTokens] using collected.symm

mutual

/-- In reading order the places never go back. -/
theorem Lies.pairwise {expression : Expression} {places : List Nat} :
    Lies tokens expression places → places.Pairwise (· ≤ ·)
  | .single _ _ => List.pairwise_singleton _ _
  | .chord _ _ apart behind => .cons behind (apart.imp Nat.le_of_lt)
  | .call _ inside behind => .cons behind inside.pairwise
  | .hold _ inside behind => .cons behind inside.pairwise
  | .group _ inside behind => .cons behind inside.pairwise

theorem LieApart.pairwise {expressions : List Expression} {places : List Nat} :
    LieApart tokens expressions places → places.Pairwise (· ≤ ·)
  | .nil => .nil
  | .cons lies onward apart =>
      List.pairwise_append.mpr ⟨lies.pairwise, onward.pairwise, fun place member other behind =>
        Nat.le_of_lt (apart place member other behind)⟩

end

/-- An expression behind all others lies apart from them. -/
theorem LieApart.concat {expressions : List Expression} {latest : Expression}
    {places others : List Nat} (lie : LieApart tokens expressions places)
    (lies : Lies tokens latest others)
    (apart : ∀ place ∈ places, ∀ other ∈ others, place < other) :
    LieApart tokens (expressions ++ [latest]) (places ++ others) := by
  induction expressions generalizing places with
  | nil =>
      cases lie
      have alone := LieApart.cons lies .nil (by simp)
      simpa using alone
  | cons first rest inductionHypothesis =>
      cases lie with
      | @cons _ _ early late firstLies onward between =>
          rw [List.append_assoc]
          apply LieApart.cons firstLies
          · apply inductionHypothesis onward
            exact fun place member => apart place (List.mem_append_right early member)
          · intro place member other behind
            rcases List.mem_append.mp behind with inRest | inLatest
            · exact between place member other inRest
            · exact apart place (List.mem_append_left late member) other inLatest

/-! ### Between two places -/

/-- The expression lies at the first place or behind it, and in front of the last one. -/
def LiesBetween (tokens : List Token) (first behind : Nat) (expression : Expression) : Prop :=
  ∃ places, Lies tokens expression places ∧ ∀ place ∈ places, first ≤ place ∧ place < behind

/-- The expressions lie apart, at the first place or behind it, and in front of the last
one. -/
def LieBetween (tokens : List Token) (first behind : Nat) (expressions : List Expression) :
    Prop :=
  ∃ places, LieApart tokens expressions places ∧
    ∀ place ∈ places, first ≤ place ∧ place < behind

variable {first middle behind later earlier : Nat} {expression : Expression}
  {expressions : List Expression}

theorem LiesBetween.mono (lies : LiesBetween tokens first behind expression)
    (before : earlier ≤ first) (onward : behind ≤ later) :
    LiesBetween tokens earlier later expression := by
  obtain ⟨places, lies, between⟩ := lies
  refine ⟨places, lies, fun place member => ?_⟩
  have inside := between place member
  omega

theorem LieBetween.mono (lie : LieBetween tokens first behind expressions)
    (before : earlier ≤ first) (onward : behind ≤ later) :
    LieBetween tokens earlier later expressions := by
  obtain ⟨places, lie, between⟩ := lie
  refine ⟨places, lie, fun place member => ?_⟩
  have inside := between place member
  omega

/-- The token of an expression is one of those that it was read from. -/
theorem LiesBetween.token_mem (lies : LiesBetween tokens first behind expression) :
    expression.token ∈ tokens := by
  obtain ⟨places, lies, between⟩ := lies
  cases lies with
  | single alone here => exact List.mem_of_getElem? here
  | chord here each apart behind => exact List.mem_of_getElem? here
  | call here inside behind => exact List.mem_of_getElem? here
  | hold here inside behind => exact List.mem_of_getElem? here
  | group here inside behind => exact List.mem_of_getElem? here

theorem LieBetween.nil : LieBetween tokens first behind [] :=
  ⟨[], .nil, by simp⟩

theorem LiesBetween.single (alone : expression.isSingle = true)
    (here : tokens[first]? = some expression.token) (onward : first < behind) :
    LiesBetween tokens first behind expression :=
  ⟨[first], .single alone here, by simp [onward]⟩

/-- What was read behind some expressions lies apart from them. -/
theorem LieBetween.concat (lie : LieBetween tokens first middle expressions)
    (lies : LiesBetween tokens middle behind expression) (before : first ≤ middle)
    (onward : middle ≤ behind) :
    LieBetween tokens first behind (expressions ++ [expression]) := by
  obtain ⟨places, lie, between⟩ := lie
  obtain ⟨others, lies, betweenOthers⟩ := lies
  refine ⟨places ++ others, lie.concat lies ?_, ?_⟩
  · intro place member other behindMember
    have here := between place member
    have there := betweenOthers other behindMember
    omega
  · intro place member
    rcases List.mem_append.mp member with inside | inOthers
    · have here := between place inside
      omega
    · have there := betweenOthers place inOthers
      omega

theorem LieBetween.singleton (lies : LiesBetween tokens first behind expression) :
    LieBetween tokens first behind [expression] := by
  obtain ⟨places, lies, between⟩ := lies
  have alone := LieApart.cons lies .nil (by simp)
  rw [List.append_nil] at alone
  exact ⟨places, alone, between⟩

/-- The expressions lie apart. Their places are those of all their tokens, and in reading order
they never go back. -/
def Placed (tokens : List Token) (expressions : List Expression) : Prop :=
  ∃ places, LieApart tokens expressions places ∧
    places.map (tokens[·]?) = (allTokens expressions).map some ∧ places.Pairwise (· ≤ ·)

theorem LieBetween.placed (lie : LieBetween tokens first behind expressions) :
    Placed tokens expressions := by
  obtain ⟨places, lie, _⟩ := lie
  exact ⟨places, lie, lie.map_allTokens, lie.pairwise⟩

/-! ### Expressions with parts -/

section Parts

variable {token : Token}

theorem LieBetween.call {name : String} (lie : LieBetween tokens first behind expressions)
    (here : tokens[first]? = some token) (onward : first < behind) :
    LiesBetween tokens first behind (.call name expressions token) := by
  obtain ⟨places, lie, between⟩ := lie
  refine ⟨first :: places, .call here lie fun other member => (between other member).1, ?_⟩
  simpa [onward] using between

theorem LieBetween.group (lie : LieBetween tokens first behind expressions)
    (here : tokens[first]? = some token) (onward : first < behind) :
    LiesBetween tokens first behind (.group expressions token) := by
  obtain ⟨places, lie, between⟩ := lie
  refine ⟨first :: places, .group here lie fun other member => (between other member).1, ?_⟩
  simpa [onward] using between

theorem LiesBetween.hold (lies : LiesBetween tokens first behind expression)
    (here : tokens[first]? = some token) (onward : first < behind) :
    LiesBetween tokens first behind (.hold expression token) := by
  obtain ⟨places, lies, between⟩ := lies
  refine ⟨first :: places, .hold here lies fun other member => (between other member).1, ?_⟩
  simpa [onward] using between

/-- The members of a chord lie apart between two places. -/
def MembersLie (tokens : List Token) (first behind : Nat) (members : List ChordMember) :
    Prop :=
  ∃ places : List Nat, places.map (tokens[·]?) = members.map (fun member => some member.token) ∧
    places.Pairwise (· < ·) ∧ ∀ place ∈ places, first ≤ place ∧ place < behind

/-- A chord that begins with a token goes on with the members that were read behind it. -/
theorem MembersLie.chord {members : List ChordMember} {member : ChordMember}
    (lie : MembersLie tokens (first + 1) behind members)
    (here : tokens[first]? = some member.token) (onward : first < behind) :
    LiesBetween tokens first behind (.chord (member :: members) member.token) := by
  obtain ⟨places, each, apart, between⟩ := lie
  have inside : ∀ place ∈ first :: places, first ≤ place ∧ place < behind := by
    refine List.forall_mem_cons.mpr ⟨⟨Nat.le_refl _, onward⟩, fun place member => ?_⟩
    have later := between place member
    omega
  refine ⟨first :: first :: places, .chord here ?_ ?_ fun other member => (inside other member).1,
    List.forall_mem_cons.mpr ⟨⟨Nat.le_refl _, onward⟩, inside⟩⟩
  · simp [here, each]
  · exact .cons (fun other member => (between other member).1) apart

/-- The token of a note or a name is that of the only member it makes. -/
theorem LiesBetween.membersLie (lies : LiesBetween tokens first behind expression)
    (member : ChordMember) (alone : expression.isSingle = true)
    (same : member.token = expression.token) :
    MembersLie tokens first behind [member] := by
  obtain ⟨places, lies, between⟩ := lies
  cases lies with
  | @single _ place _ here =>
      exact ⟨[place], by simp [here, same], List.pairwise_singleton _ _, between⟩
  | _ => contradiction

/-- The members of a chord that was read lie where it lies. -/
theorem LiesBetween.membersLie_chord {members : List ChordMember}
    (lies : LiesBetween tokens first behind (.chord members token)) :
    MembersLie tokens first behind members := by
  obtain ⟨places, lies, between⟩ := lies
  cases lies with
  | single alone _ => contradiction
  | @chord _ _ place others here each apart _ =>
      exact ⟨others, each, apart, fun other member =>
        between other (List.mem_cons_of_mem place member)⟩

end Parts

end Solfege.Expression
