import Solfege.Proofs.Recovery.Expression
import Solfege.Proofs.Reading.Expression

/-!
Contract: where a call ends.

Owns:
- the proof that a call ends behind a closing parenthesis, its own or one of a call inside, and
  never later;
- the conditions under which it is its own: nothing is reported, or calls stand only in groups;
- the two ways in which a call ends elsewhere.

Does not own: what the call makes of its arguments.
-/

namespace Solfege.Reading

/-- The reader stands at the opening parenthesis of a call. Brackets nest up to the closing one,
and each parenthesis inside opens behind a word. -/
structure AtCall (reading : Reading) (opening : Token) (inside : List Token) (closing : Token)
    (behind : List Token) : Prop where
  closed : reading.Closed
  tokens : reading.rest = opening :: (inside ++ closing :: behind)
  opens : opening.kind = .leftParen
  closes : closing.kind = .rightParen
  nested : Token.Nested Token.allBrackets inside
  more : ∀ token ∈ inside, token.kind ≠ .endOfFile
  words : (opening :: (inside ++ [closing])).IsChain fun first second =>
    second.kind = .leftParen → first.kind = .word

/-- No parenthesis closes directly behind a slash, where the next member of a chord is missing. -/
def NoEmptyMember (inside : List Token) (closing : Token) : Prop :=
  (inside ++ [closing]).IsChain fun first second => second.kind = .rightParen → first.kind ≠ .slash

section Calls

variable {bound : Nat} {name : Token} {reading : Reading} {opening closing : Token}
variable {inside behind : List Token}

/-! ### The scope of a call -/

/-- The scope of a call where nothing has been read of its arguments yet. -/
def callScope (reading : Reading) (inside : List Token) (closing : Token) (behind : List Token)
    (grouped : Bool) : Scope where
  tokens := inside ++ [closing]
  behind := behind
  reported := reading.diagnostics.length
  grouped := grouped

theorem AtCall.chain (call : AtCall reading opening inside closing behind)
    (members : NoEmptyMember inside closing) :
    (opening :: (inside ++ [closing])).IsChain MayFollow := by
  have words := List.isChain_iff_forall_rel_of_append_cons_cons.mp call.words
  have slashes := List.isChain_iff_forall_rel_of_append_cons_cons.mp members
  refine List.isChain_iff_forall_rel_of_append_cons_cons.mpr fun first second front rest same =>
    ⟨words same, fun closes => ?_⟩
  cases front with
  | nil =>
      obtain ⟨rfl, _⟩ := List.cons.inj same
      rw [call.opens]
      decide
  | cons _ front => exact slashes (List.cons.inj same).2 closes

theorem AtCall.reaches (call : AtCall reading opening inside closing behind)
    (members : NoEmptyMember inside closing) {grouped : Bool}
    (brings : Closes grouped [.rightParen] (inside ++ [closing])) :
    Reaches (callScope reading inside closing behind grouped) [.rightParen] reading.advanced := by
  have rest : reading.advanced.rest = (inside ++ [closing]) ++ behind := by
    show reading.rest.tail = _
    rw [call.tokens]
    simp
  have chain := call.chain members
  refine ⟨0, ⟨_, rest, List.suffix_refl _, brings, chain.tail⟩, fun _ => ?_, Nat.le_refl _,
    .inl rfl⟩
  obtain ⟨first, tail, _, same, _⟩ := brings.exists_cons (List.cons_ne_nil _ _)
  rw [same] at rest chain
  rw [current_cons rest]
  intro opensNext
  have isWord := (List.isChain_cons_cons.mp chain).1.1 opensNext
  rw [call.opens] at isWord
  contradiction

theorem AtCall.closing_brings (call : AtCall reading opening inside closing behind)
    (grouped : Bool) : Closes grouped [.rightParen] [closing] := by
  have brings : Closes grouped [closing.kind] [closing] :=
    Closes.done.cons_closing (.inl call.closes)
  rwa [call.closes] at brings

/-- A call comes to its end. -/
theorem exists_callFrom_eq_ok {scope : Scope} (closed : reading.Closed)
    (fits : reading.rest.tail.length < bound)
    (reaches : Reaches scope [.rightParen] reading.advanced) :
    ∃ call after, callFrom (expression bound) name reading = .ok call after ∧
      Ended scope [] after := by
  have leads := leads_callFrom (keepsWithin_expression bound) name reaches
  have reads := orderly_callFrom (readsWithin_expression bound) closed name fits
  cases result : callFrom (expression bound) name reading with
  | ok call after => exact ⟨call, after, rfl, leads.of_ok result⟩
  | error halt after =>
      cases halt with
      | recoverable diagnostic => exact (leads.of_recoverable result).elim
      | fatal diagnostic => exact absurd result reads.not_fatal

/-- Behind a call, the tokens that are left bring the parentheses that are left over. -/
theorem Ended.left_eq_nil {scope : Scope} {after : Reading} {left : List Token}
    (ended : Ended scope [] after) (rest : after.rest = left ++ scope.behind)
    (none : after.diagnostics.length = scope.reported ∨ scope.grouped = true) : left = [] := by
  obtain ⟨extra, ⟨region, same, _, brings, _⟩, _, _, excused⟩ := ended.reaches
  rw [rest, List.append_cancel_right_eq] at same
  have nothing : extra = 0 := by
    refine excused.resolve_right fun excused => ?_
    rcases none with silent | grouped
    · omega
    · have impossible := excused.2 grouped
      contradiction
  subst nothing
  cases brings with
  | done => exact same
  | cons step => contradiction

end Calls

/-! ### Calls with a problem -/

namespace Faulty

def token (kind : Token.Kind) (text : String) : Token := ⟨text, kind, .start⟩

def opening : Token := token .leftParen "("

def closing : Token := token .rightParen ")"

/-- The tokens `sol` and, on the next line, `la)`. -/
def behind : List Token :=
  [token (.note .sol) "sol", token .newline "\n", token (.note .la) "la", closing]

/-- The reader in front of `(`, the tokens inside, `)` and the tokens behind. -/
def reader (inside : List Token) : Reading :=
  ⟨opening :: (inside ++ closing :: behind), .endOfFileAt .start, [], []⟩

/-- The tokens `do re n(fa) mi`. -/
def ungrouped : List Token :=
  [token (.note .ut) "do", token .space " ", token (.note .re) "re", token .space " ",
    token .word "n", opening, token (.note .fa) "fa", closing, token .space " ",
    token (.note .mi) "mi"]

/-- The tokens `do re [n(fa)] mi`. -/
def grouped : List Token :=
  [token (.note .ut) "do", token .space " ", token (.note .re) "re", token .space " ",
    token .leftBracket "[", token .word "n", opening, token (.note .fa) "fa", closing,
    token .rightBracket "]", token .space " ", token (.note .mi) "mi"]

/-- The tokens `do/`. -/
def halfChord : List Token := [token (.note .ut) "do", token .slash "/"]

theorem nested_call {rest : List Token} (nested : Token.Nested Token.allBrackets rest) :
    Token.Nested Token.allBrackets
      (token .word "n" :: opening :: token (.note .fa) "fa" :: closing :: rest) :=
  .plain (by decide) (.enclosed (by decide) (.plain (by decide) .nil) nested)

theorem nested_mi : Token.Nested Token.allBrackets [token .space " ", token (.note .mi) "mi"] :=
  .plain (by decide) (.plain (by decide) .nil)

theorem nested_doRe {rest : List Token} (nested : Token.Nested Token.allBrackets rest) :
    Token.Nested Token.allBrackets (token (.note .ut) "do" :: token .space " " ::
      token (.note .re) "re" :: token .space " " :: rest) :=
  .plain (by decide) (.plain (by decide) (.plain (by decide) (.plain (by decide) nested)))

theorem atCall_ungrouped : AtCall (reader ungrouped) opening ungrouped closing behind :=
  ⟨rfl, rfl, rfl, rfl, nested_doRe (nested_call nested_mi), by decide, by decide⟩

theorem atCall_grouped : AtCall (reader grouped) opening grouped closing behind :=
  ⟨rfl, rfl, rfl, rfl, nested_doRe (.enclosed (by decide) (nested_call .nil) nested_mi), by decide,
    by decide⟩

theorem grouped_grouped : Grouped grouped :=
  .plain rfl (.plain rfl (.plain rfl (.plain rfl
    (.group rfl rfl (nested_call .nil) (by decide) (.plain rfl (.plain rfl .nil))))))

theorem atCall_halfChord : AtCall (reader halfChord) opening halfChord closing behind :=
  ⟨rfl, rfl, rfl, rfl, .plain (by decide) (.plain (by decide) .nil), by decide, by decide⟩

end Faulty

/-! ### Main result -/

/-- **Calls end at a closing parenthesis.** From the opening parenthesis of a call on, up to
the closing one let brackets nest, let parentheses open behind words only, and let none close
directly behind a slash. Then the call ends just behind a closing parenthesis, which is its own or
one inside. It is its own if nothing was reported, and also if a problem was recovered from,
provided that the calls inside stand in groups. -/
theorem callFrom_ends_behind_paren {bound : Nat} {reading : Reading} {opening closing : Token}
    {inside behind : List Token} (call : AtCall reading opening inside closing behind)
    (members : NoEmptyMember inside closing) (fits : reading.rest.tail.length < bound)
    (name : Token) :
    ∃ result after front paren left,
      callFrom (expression bound) name reading = .ok result after ∧
        inside ++ [closing] = front ++ paren :: left ∧ paren.kind = .rightParen ∧
        after.rest = left ++ behind ∧
        (after.diagnostics = reading.diagnostics ∨ Grouped inside → left = []) := by
  have brings : Closes false [.rightParen] (inside ++ [closing]) :=
    Closes.nested_append call.nested call.more (List.cons_ne_nil _ _)
      (fun impossible => by contradiction) (call.closing_brings false)
  obtain ⟨result, after, read, ended⟩ :=
    exists_callFrom_eq_ok call.closed fits (call.reaches members brings)
  obtain ⟨paren, left, isParen, ⟨front, same⟩, rest⟩ := ended.behind
  refine ⟨result, after, front, paren, left, read, same.symm, isParen, rest, ?_⟩
  rintro (silent | grouped)
  · exact ended.left_eq_nil rest (.inl (by rw [silent]; rfl))
  · have bringsGrouped : Closes true [.rightParen] (inside ++ [closing]) :=
      Closes.grouped_append grouped (List.cons_ne_nil _ _) (call.closing_brings true)
    obtain ⟨_, _, again, endedGrouped⟩ :=
      exists_callFrom_eq_ok call.closed fits (call.reaches members bringsGrouped)
    rw [read] at again
    cases again
    exact endedGrouped.left_eq_nil rest (.inr rfl)

/-- The problem of `m(do re [n(fa)] mi)` is recovered from just behind the call. -/
theorem callFrom_ends_behind_paren_grouped :
    AtCall (Faulty.reader Faulty.grouped) Faulty.opening Faulty.grouped Faulty.closing
        Faulty.behind ∧
      NoEmptyMember Faulty.grouped Faulty.closing ∧
      ∃ call after,
        callFrom (expression 30) default (Faulty.reader Faulty.grouped) = .ok call after ∧
          after.rest = Faulty.behind := by
  have members : NoEmptyMember Faulty.grouped Faulty.closing := by
    unfold NoEmptyMember
    decide
  obtain ⟨call, after, _, _, left, read, _, _, rest, nothing⟩ :=
    callFrom_ends_behind_paren Faulty.atCall_grouped members (show _ < 30 by decide) default
  rw [nothing (.inr Faulty.grouped_grouped)] at rest
  exact ⟨Faulty.atCall_grouped, members, call, after, read, rest⟩

/-- The problem of `m(do re n(fa) mi)` is recovered from inside of the call, and that of `m(do/)`
behind a later parenthesis, on the next line. -/
theorem not_callFrom_ends_behind_own_paren :
    (AtCall (Faulty.reader Faulty.ungrouped) Faulty.opening Faulty.ungrouped Faulty.closing
        Faulty.behind ∧
      ∃ call after,
        callFrom (expression 30) default (Faulty.reader Faulty.ungrouped) = .ok call after ∧
          Faulty.behind <:+ after.rest ∧ after.rest ≠ Faulty.behind) ∧
    AtCall (Faulty.reader Faulty.halfChord) Faulty.opening Faulty.halfChord Faulty.closing
        Faulty.behind ∧
      ∃ call after,
        callFrom (expression 30) default (Faulty.reader Faulty.halfChord) = .ok call after ∧
          after.rest <:+ Faulty.behind ∧ after.rest ≠ Faulty.behind :=
  ⟨⟨Faulty.atCall_ungrouped, _, _, rfl, by decide, by decide⟩, Faulty.atCall_halfChord, _, _, rfl,
    by decide, by decide⟩

end Solfege.Reading
