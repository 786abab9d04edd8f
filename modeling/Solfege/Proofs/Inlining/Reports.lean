import Solfege.Proofs.Frame
import Solfege.Proofs.Inlining.Circles
import Solfege.Proofs.Names.Duplicates

/-!
Contract: the problems of inlining are told apart by what is reported of them.

Owns:
- the messages of expansion, as a beginning that tells their sort and a rest that tells
  their names and numbers;
- the proof that no two problems of inlining a score are reported alike, if the score was
  read, before or after any passes;
- the reports of an inlined score, put together from those of its movements.

Does not own: which problems there are.

A problem is noted unless it was noted before. Whether problems are compared or their reports
makes no difference, but not for every score: a macro whose name holds an arrow could be taken
for two links of a chain. The macros of a score that was read are named by words.
-/

namespace Solfege

/-! ### Texts that can be taken apart -/

theorem isDigit_of_mem_toString {value : Nat} :
    ∀ character ∈ (toString value).toList, character.isDigit = true := by
  intro character member
  change character ∈ value.repr.toList at member
  rw [Nat.toList_repr] at member
  exact Nat.isDigit_of_mem_toDigits (by decide) (by decide) member

theorem eq_of_toString_eq {value other : Nat}
    (same : (toString value).toList = (toString other).toList) : value = other := by
  change value.repr.toList = other.repr.toList at same
  rw [Nat.toList_repr, Nat.toList_repr] at same
  rw [← Nat.ofDigitChars_toDigits (b := 10) (n := value) (by decide) (by decide), same,
    Nat.ofDigitChars_toDigits (by decide) (by decide)]

/-- A number and what stands behind it, told from the text that they make. -/
theorem number_append_inj {value other : Nat} {behind otherBehind : String}
    (stops : Lexeme.Stops Char.isDigit behind.toList)
    (otherStops : Lexeme.Stops Char.isDigit otherBehind.toList)
    (same : toString value ++ behind = toString other ++ otherBehind) :
    value = other ∧ behind = otherBehind := by
  have texts := congrArg String.toList same
  rw [String.toList_append, String.toList_append] at texts
  obtain ⟨numbers, backs⟩ := Lexeme.append_inj_of_stops isDigit_of_mem_toString
    isDigit_of_mem_toString stops otherStops texts
  exact ⟨eq_of_toString_eq numbers, String.toList_injective backs⟩

/-- What stands in front of a number, and the number, told from the text that they make. -/
theorem append_number_inj {front otherFront : String} {value other : Nat}
    (stops : Lexeme.Stops Char.isDigit front.toList.reverse)
    (otherStops : Lexeme.Stops Char.isDigit otherFront.toList.reverse)
    (same : front ++ toString value = otherFront ++ toString other) :
    front = otherFront ∧ value = other := by
  have texts := congrArg (fun text => text.toList.reverse) same
  simp only [String.toList_append, List.reverse_append] at texts
  obtain ⟨numbers, fronts⟩ := Lexeme.append_inj_of_stops
    (fun _ member => isDigit_of_mem_toString _ (List.mem_reverse.mp member))
    (fun _ member => isDigit_of_mem_toString _ (List.mem_reverse.mp member))
    stops otherStops texts
  exact ⟨String.toList_injective (List.reverse_injective fronts),
    eq_of_toString_eq (List.reverse_injective numbers)⟩

/-- A word and what stands behind it, told from the text that they make. -/
theorem word_append_inj {word other behind otherBehind : String} (isName : IsName word)
    (otherIsName : IsName other) (stops : Lexeme.Stops Lexeme.continuesWord behind.toList)
    (otherStops : Lexeme.Stops Lexeme.continuesWord otherBehind.toList)
    (same : word ++ behind = other ++ otherBehind) : word = other ∧ behind = otherBehind := by
  have texts := congrArg String.toList same
  rw [String.toList_append, String.toList_append] at texts
  obtain ⟨words, backs⟩ := Lexeme.append_inj_of_stops
    (Lexeme.continuesWord_of_isWord isName.1) (Lexeme.continuesWord_of_isWord otherIsName.1)
    stops otherStops texts
  exact ⟨String.toList_injective words, String.toList_injective backs⟩

/-- What stands between two texts, told from the text that all three make. -/
theorem append_append_inj {middle other : String} (behind : String)
    (same : middle ++ behind = other ++ behind) : middle = other :=
  (String.append_left_inj behind).mp same

/-- What follows the first link of a chain: the other links, each behind an arrow. -/
def arrows (links : List String) : String :=
  String.join (links.map (" -> " ++ ·))

theorem intercalate_eq_arrows (first : String) (links : List String) :
    String.intercalate " -> " (first :: links) = first ++ arrows links := by
  induction links generalizing first with
  | nil => simp [arrows]
  | cons next others inductionHypothesis =>
      rw [String.intercalate_cons_cons, inductionHypothesis]
      simp [arrows, String.append_assoc]

theorem stops_arrows (links : List String) :
    Lexeme.Stops Lexeme.continuesWord (arrows links).toList := by
  intro character first
  cases links with
  | nil => simp [arrows] at first
  | cons link others =>
      have blank : character = ' ' := by simpa [arrows] using first.symm
      rw [blank]
      rfl

/-- The links of a chain, told from the text that they make behind another. -/
theorem arrows_injective {links others : List String} (areNames : ∀ link ∈ links, IsName link)
    (otherNames : ∀ link ∈ others, IsName link) (same : arrows links = arrows others) :
    links = others := by
  induction links generalizing others with
  | nil =>
      cases others with
      | nil => rfl
      | cons other rest => simp [arrows] at same
  | cons link links inductionHypothesis =>
      cases others with
      | nil => simp [arrows] at same
      | cons other others =>
          obtain ⟨isName, restNames⟩ := List.forall_mem_cons.mp areNames
          obtain ⟨otherIsName, otherRest⟩ := List.forall_mem_cons.mp otherNames
          have behindArrow : link ++ arrows links = other ++ arrows others := by
            simpa [arrows, String.append_assoc] using same
          obtain ⟨sameLink, sameRest⟩ := word_append_inj isName otherIsName (stops_arrows links)
            (stops_arrows others) behindArrow
          rw [sameLink, inductionHypothesis restNames otherRest sameRest]

/-! ### Messages -/

namespace ExpansionProblem

/-- How a message begins, in front of the first name or number in it. -/
def lead : ExpansionProblem → String
  | nothingToRepeat => "repetition has nothing to repeat"
  | repetitionTooLarge _ _ => "repeating "
  | repetitionLeft _ => "repetition '*"
  | movementTooLarge _ => "movement expands to more than "
  | unknownName _ => "unknown identifier '"
  | movementAsMacro _ => "'"
  | selfReference _ _ => "macro '"
  | argumentCount _ _ _ => "arity mismatch: macro '"
  | argumentInChord _ => "argument for '"
  | memberNotNotes _ => "'"
  | unholdableExpansion => "a held expression must expand to a single note or chord"

/-- How a message goes on from the first name or number in it. -/
def rest : ExpansionProblem → String
  | nothingToRepeat => ""
  | repetitionTooLarge count limit =>
      toString count ++ (" times exceeds the expansion limit of " ++ toString limit)
  | repetitionLeft count => toString count ++ "' was not expanded before macro resolution"
  | movementTooLarge limit => toString limit ++ " expressions"
  | unknownName name => name ++ "'"
  | movementAsMacro name => name ++ "' names a movement and cannot be used as a macro"
  | selfReference name chain =>
      name ++ ("' references itself: " ++ String.intercalate " -> " chain)
  | argumentCount name taken given =>
      name ++ "' takes " ++ toString taken ++ " argument(s), " ++ toString given ++ " given"
  | argumentInChord parameter => parameter ++ "' is used in a chord and must be a note or chord"
  | memberNotNotes name => name ++ "' must expand to notes to be used in a chord"
  | unholdableExpansion => ""

theorem message_eq (problem : ExpansionProblem) :
    problem.message = problem.lead ++ problem.rest := by
  cases problem with
  | nothingToRepeat | unholdableExpansion => exact String.append_empty.symm
  | repetitionTooLarge | argumentCount | selfReference =>
      unfold message lead rest
      dsimp only
      repeat rw [String.append_assoc]
      rfl
  | _ => exact String.append_assoc

/-- All beginnings of messages. -/
def leads : List String :=
  [lead nothingToRepeat, lead (repetitionTooLarge 0 0), lead (repetitionLeft 0),
    lead (movementTooLarge 0), lead (unknownName ""), lead (movementAsMacro ""),
    lead (selfReference "" []), lead (argumentCount "" 0 0), lead (argumentInChord ""),
    lead (memberNotNotes ""), lead unholdableExpansion]

theorem lead_mem_leads (problem : ExpansionProblem) : problem.lead ∈ leads := by
  cases problem <;> simp [lead, leads]

/-- No beginning goes on to become another. -/
theorem lead_eq_of_goesOn (problem other : ExpansionProblem)
    (goesOn : problem.lead.toList <+: other.lead.toList) : problem.lead = other.lead := by
  have each : ∀ one ∈ leads, ∀ two ∈ leads, one.toList <+: two.toList → one = two := by
    decide +kernel
  exact each _ (lead_mem_leads problem) _ (lead_mem_leads other) goesOn

/-- The message tells its beginning and its rest. -/
theorem lead_and_rest_of_message {problem other : ExpansionProblem}
    (same : problem.message = other.message) :
    problem.lead = other.lead ∧ problem.rest = other.rest := by
  rw [message_eq, message_eq] at same
  have texts := congrArg String.toList same
  rw [String.toList_append, String.toList_append] at texts
  have sameLead : problem.lead = other.lead := by
    have here := List.prefix_append problem.lead.toList problem.rest.toList
    have there := List.prefix_append other.lead.toList other.rest.toList
    rw [← texts] at there
    rcases List.prefix_or_prefix_of_prefix here there with leads | leads
    · exact lead_eq_of_goesOn problem other leads
    · exact (lead_eq_of_goesOn other problem leads).symm
  rw [sameLead] at same
  exact ⟨sameLead, (String.append_right_inj _).mp same⟩

/-- A macro within itself is reported with a chain of words that begins with its name. -/
def IsWorded : ExpansionProblem → Prop
  | selfReference name chain => ∃ behind, chain = name :: behind ∧ ∀ link ∈ chain, IsName link
  | _ => True

/-- Of worded problems, no two have the same message. -/
theorem eq_of_message {problem other : ExpansionProblem} (worded : problem.IsWorded)
    (otherWorded : other.IsWorded) (same : problem.message = other.message) :
    problem = other := by
  obtain ⟨leads, rests⟩ := lead_and_rest_of_message same
  cases problem with
  | nothingToRepeat =>
      cases other with
      | nothingToRepeat => rfl
      | _ => simp [lead] at leads
  | repetitionTooLarge count limit =>
      cases other with
      | repetitionTooLarge otherCount otherLimit =>
          obtain ⟨rfl, behind⟩ := number_append_inj (by simp [Lexeme.Stops])
            (by simp [Lexeme.Stops]) rests
          have limits := (String.append_right_inj _).mp behind
          rw [eq_of_toString_eq (congrArg String.toList limits)]
      | _ => simp [lead] at leads
  | repetitionLeft count =>
      cases other with
      | repetitionLeft otherCount =>
          have counts := append_append_inj _ rests
          rw [eq_of_toString_eq (congrArg String.toList counts)]
      | _ => simp [lead] at leads
  | movementTooLarge limit =>
      cases other with
      | movementTooLarge otherLimit =>
          have limits := append_append_inj _ rests
          rw [eq_of_toString_eq (congrArg String.toList limits)]
      | _ => simp [lead] at leads
  | unknownName name =>
      cases other with
      | unknownName other => rw [append_append_inj _ rests]
      | _ => simp [lead] at leads
  | movementAsMacro name =>
      cases other with
      | movementAsMacro other => rw [append_append_inj _ rests]
      | memberNotNotes other =>
          have ends := congrArg (fun text => text.toList.getLast?) rests
          simp [rest] at ends
      | _ => simp [lead] at leads
  | selfReference name chain =>
      cases other with
      | selfReference otherName otherChain =>
          obtain ⟨links, rfl, areNames⟩ := worded
          obtain ⟨otherLinks, rfl, otherNames⟩ := otherWorded
          obtain ⟨isName, linkNames⟩ := List.forall_mem_cons.mp areNames
          obtain ⟨otherIsName, otherLinkNames⟩ := List.forall_mem_cons.mp otherNames
          obtain ⟨rfl, behind⟩ := word_append_inj isName otherIsName
            (by simp [Lexeme.Stops, Lexeme.continuesWord])
            (by simp [Lexeme.Stops, Lexeme.continuesWord]) rests
          have chains := (String.append_right_inj _).mp behind
          rw [intercalate_eq_arrows, intercalate_eq_arrows] at chains
          rw [arrows_injective linkNames otherLinkNames ((String.append_right_inj _).mp chains)]
      | _ => simp [lead] at leads
  | argumentCount name taken given =>
      cases other with
      | argumentCount otherName otherTaken otherGiven =>
          obtain ⟨fronts, rfl⟩ := append_number_inj (by simp [Lexeme.Stops])
            (by simp [Lexeme.Stops]) (append_append_inj _ rests)
          obtain ⟨names, rfl⟩ := append_number_inj (by simp [Lexeme.Stops])
            (by simp [Lexeme.Stops]) (append_append_inj _ fronts)
          rw [append_append_inj _ names]
      | _ => simp [lead] at leads
  | argumentInChord parameter =>
      cases other with
      | argumentInChord other => rw [append_append_inj _ rests]
      | _ => simp [lead] at leads
  | memberNotNotes name =>
      cases other with
      | memberNotNotes other => rw [append_append_inj _ rests]
      | movementAsMacro other =>
          have ends := congrArg (fun text => text.toList.getLast?) rests
          simp [rest] at ends
      | _ => simp [lead] at leads
  | unholdableExpansion =>
      cases other with
      | unholdableExpansion => rfl
      | _ => simp [lead] at leads

end ExpansionProblem

/-! ### Reports -/

namespace Diagnostic

/-- The problem is one of expansion, and worded. -/
def IsWorded (diagnostic : Diagnostic) : Prop :=
  ∃ problem, diagnostic.problem = .ofExpansion problem ∧ problem.IsWorded

/-- Of worded problems, no two are reported alike. -/
theorem eq_of_report {diagnostic other : Diagnostic} (worded : diagnostic.IsWorded)
    (otherWorded : other.IsWorded) (same : diagnostic.report = other.report) :
    diagnostic = other := by
  obtain ⟨problem, here, problemWorded⟩ := worded
  obtain ⟨otherProblem, there, otherProblemWorded⟩ := otherWorded
  rcases diagnostic with ⟨_, position⟩
  rcases other with ⟨_, otherPosition⟩
  subst here there
  have messages : problem.message = otherProblem.message := congrArg Report.message same
  have positions : position = otherPosition := congrArg Report.position same
  rw [ExpansionProblem.eq_of_message problemWorded otherProblemWorded messages, positions]

end Diagnostic

/-- Where reports tell things apart, listing each report once lists each thing once. -/
theorem map_eraseDups_of_injective {α β : Type} [DecidableEq α] [DecidableEq β] {f : α → β}
    {things : List α}
    (apart : ∀ thing ∈ things, ∀ other ∈ things, f thing = f other → thing = other) :
    things.eraseDups.map f = (things.map f).eraseDups := by
  -- Each step leaves out what is like the first one, so the induction is on the length.
  induction length : things.length using Nat.strongRecOn generalizing things with
  | ind size inductionHypothesis =>
      cases things with
      | nil => rfl
      | cons first rest =>
          have sameKept : rest.filter (fun other => !f other == f first) =
              rest.filter fun other => !other == first := by
            apply List.filter_congr
            intro other member
            have same : f other = f first ↔ other = first :=
              ⟨apart other (List.mem_cons_of_mem _ member) first List.mem_cons_self,
                congrArg f⟩
            simp [same]
          have shorter : (rest.filter fun other => !other == first).length < size := by
            rw [← length, List.length_cons]
            exact Nat.lt_succ_of_le (List.length_filter_le _ _)
          have stillApart : ∀ thing ∈ rest.filter (fun other => !other == first),
              ∀ other ∈ rest.filter (fun other => !other == first), f thing = f other →
                thing = other := by
            intro thing member other otherMember
            exact apart thing (List.mem_cons_of_mem _ (List.mem_of_mem_filter member)) other
              (List.mem_cons_of_mem _ (List.mem_of_mem_filter otherMember))
          have others := inductionHypothesis _ shorter stillApart rfl
          rw [List.map_cons, List.eraseDups_cons, List.eraseDups_cons, List.map_cons, others,
            List.filter_map, ← sameKept]
          rfl

theorem exists_next_of_isChain {α : Type} {next : α → α → Prop} {front : List α} {last : α}
    (chain : (front ++ [last]).IsChain next) : ∀ link ∈ front, ∃ other, next link other := by
  induction front with
  | nil => exact List.forall_mem_nil _
  | cons first front inductionHypothesis =>
      rw [List.cons_append, List.isChain_cons] at chain
      obtain ⟨leads, behind⟩ := chain
      refine List.forall_mem_cons.mpr ⟨?_, inductionHypothesis behind⟩
      cases front with
      | nil => exact ⟨last, leads last rfl⟩
      | cons second front => exact ⟨second, leads second rfl⟩

namespace Score

/-- Every name of a macro stands for a macro that is stored, and is a word. -/
structure HasWordedMacros (score : Score) : Prop where
  backed : score.Backed
  faithful : score.Faithful
  names : ∀ definition ∈ score.macros, IsName definition.name

namespace HasWordedMacros

variable {score : Score}

theorem after (worded : score.HasWordedMacros) (pass : Pass) :
    (score.after pass).1.HasWordedMacros where
  backed := worded.backed.after pass
  faithful := worded.faithful.after pass
  names := by
    have kept := congrArg (List.map Signature.name) (score.sameFrame_after pass).signatures
    rw [List.map_map, List.map_map] at kept
    have words : ∀ name ∈ score.macros.map Macro.name, IsName name :=
      List.forall_mem_map.mpr worded.names
    exact List.forall_mem_map.mp (kept ▸ words)

theorem afterAll (worded : score.HasWordedMacros) (passes : List Pass) :
    (score.afterAll passes).1.HasWordedMacros := by
  induction passes generalizing score with
  | nil => exact worded
  | cons pass others inductionHypothesis => exact inductionHypothesis (worded.after pass)

/-- A way around a circle leads through macros that are stored. -/
theorem isWorded_of_mem (worded : score.HasWordedMacros) (limit : Nat) :
    ∀ diagnostic ∈ (score.inlineMacros limit).2, diagnostic.IsWorded := by
  intro diagnostic member
  obtain ⟨problem, same⟩ := worded.backed.isExpansion_inlineMacros limit diagnostic member
  refine ⟨problem, same, ?_⟩
  have traced := worded.faithful.isTraced_of_mem limit diagnostic member
  cases problem with
  | selfReference name chain =>
      obtain ⟨⟨between, rfl⟩, leads⟩ := traced name chain same
      have isWord : ∀ link ∈ name :: between, IsName link := by
        intro link isLink
        obtain ⟨used, definition, found, _⟩ := exists_next_of_isChain leads link isLink
        rw [← worded.faithful link definition found]
        exact worded.names definition (mem_of_macro? found)
      refine ⟨between ++ [name], rfl, List.forall_mem_append.mpr ⟨isWord, ?_⟩⟩
      exact List.forall_mem_singleton.mpr (isWord name List.mem_cons_self)
  | _ => trivial

end HasWordedMacros

/-- The macros of a score that was read are named by words of the source. -/
theorem hasWordedMacros_of_read {settings : Settings} {source : String} {score : Score}
    (wasRead : Compiler.read settings source = .ok score) : score.HasWordedMacros := by
  obtain ⟨tokens, tokenized, read⟩ := Compiler.exists_tokens_of_read wasRead
  obtain ⟨written, named⟩ := exists_namedBy_of_read read
  exact ⟨named.backed, named.faithful_macros, (worded_of_ofTokens tokenized read).macros⟩

/-- **Reports tell the problems of inlining apart.** Take a score that was read, before or after
any passes. No two problems of inlining its macros are reported alike, and what is reported are
the reports of its movements alone, each of them where it is met first. -/
theorem reports_inlineMacros {settings : Settings} {source : String} {read : Score}
    (wasRead : Compiler.read settings source = .ok read) (passes : List Pass) {score : Score}
    (passed : score = (read.afterAll passes).1) (limit : Nat) :
    ((score.inlineMacros limit).2.map Diagnostic.report).Nodup ∧
      (score.inlineMacros limit).2.map Diagnostic.report =
        ((Track.places score.tracks).flatMap fun place =>
          ((score.only place.1 place.2).inlineMacros limit).2.map Diagnostic.report).eraseDups := by
  have worded : score.HasWordedMacros := passed ▸ (hasWordedMacros_of_read wasRead).afterAll passes
  have apart : ∀ diagnostic ∈ (score.inlineMacros limit).2,
      ∀ other ∈ (score.inlineMacros limit).2, diagnostic.report = other.report →
        diagnostic = other := by
    have areWorded := worded.isWorded_of_mem limit
    intro diagnostic member other otherMember
    exact Diagnostic.eq_of_report (areWorded _ member) (areWorded _ otherMember)
  refine ⟨(score.nodup_inlineMacros limit).map_on apart, ?_⟩
  rw [score.inlineMacros_problems limit] at apart ⊢
  rw [map_eraseDups_of_injective fun diagnostic member other otherMember =>
    apart diagnostic (List.mem_eraseDups.mpr member) other (List.mem_eraseDups.mpr otherMember),
    List.map_flatMap]

end Score

end Solfege
