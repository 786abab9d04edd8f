import Solfege.Proofs.Evaluation.Agreement
import Solfege.Proofs.Evaluation.Chords
import Solfege.Proofs.Pitch
import Solfege.Proofs.Repetition.Copies
import Solfege.Proofs.Splicing

/-!
Contract: the chords of expanded scores.

Owns:
- the proof that repetitions and groups make no chords that were not written;
- the proof that what was read becomes chords of several notes, unless a name in one of them
  stands for nothing.

Does not own: what the names in chords stand for.

Nothing checks that a name in a chord stands for anything. A macro with an empty body, or one
that repetitions left empty, is accepted there and takes its place away.
-/

namespace Solfege

namespace Expression

/-! ### Repetitions and groups -/

/-- Expanding repetitions leaves only chords that were there. -/
theorem Part.of_unrollWithin {members : List ChordMember} {token : Token} (limit : Nat)
    (expression : Expression)
    (isPart : Part (.chord members token) (unrollWithin limit expression).1) :
    Part (.chord members token) expression := by
  induction expression using partsInduction with
  | group items place others =>
      rw [unrollWithin_group] at isPart
      cases isPart with
      | item _ member inside =>
          obtain ⟨element, inList, rfl⟩ := exists_of_mem_unroll member
          exact .item place inList (others element inList inside)
  | call name arguments place others =>
      rw [unrollWithin, unrollArguments_eq] at isPart
      cases isPart with
      | argument _ _ member inside =>
          obtain ⟨argument, inList, rfl⟩ := List.mem_map.mp member
          exact .argument name place inList (others argument inList inside)
  | hold inner place here =>
      cases isPart with
      | held _ inside => exact .held place (here inside)
  | _ => exact isPart

theorem full_unroll (limit : Nat) {list : List Expression}
    (full : ∀ item ∈ list, Full item) : ∀ item ∈ (unroll limit list).1, Full item := by
  intro item member members token isPart
  obtain ⟨element, inList, rfl⟩ := exists_of_mem_unroll member
  exact full element inList members token (isPart.of_unrollWithin limit element)

theorem full_flatten {list : List Expression} (full : ∀ item ∈ list, Full item) :
    ∀ item ∈ flatten list, Full item := by
  intro item member members token isPart
  obtain ⟨element, inList, original, wasPart, same⟩ := Part.exists_of_mem_flatten member isPart
  cases original with
  | chord _ _ =>
      obtain ⟨rfl, rfl⟩ := Expression.chord.inj same
      exact full element inList members token wasPart
  | _ => contradiction

end Expression

open Expression

/-! ### Scores -/

namespace Score

/-- Every chord that is written in the score, at any depth, has several members. -/
structure IsFull (score : Score) : Prop where
  macros : ∀ definition ∈ score.macros, ∀ item ∈ definition.body, Full item
  movements : ∀ movement ∈ score.movements, ∀ item ∈ movement.expressions, Full item

theorem Formed.isFull {score : Score} (formed : score.Formed) : score.IsFull where
  macros definition member item inBody := ((formed.1 definition member).2 item inBody).full
  movements movement member item inMovement :=
    ((formed.2 movement member).2 item inMovement).full

theorem IsFull.unroll {score : Score} (full : score.IsFull) (limit : Nat) :
    (score.unroll limit).1.IsFull where
  macros := by
    rw [unroll_macros, List.forall_mem_map]
    exact fun definition member => full_unroll limit (full.macros definition member)
  movements := by
    rw [unroll_movements, List.forall_mem_map]
    exact fun movement member => full_unroll limit (full.movements movement member)

theorem IsFull.flatten {score : Score} (full : score.IsFull) : score.flatten.IsFull where
  macros := List.forall_mem_map.mpr fun definition member =>
    full_flatten (full.macros definition member)
  movements := by
    rw [flatten_movements, List.forall_mem_map]
    exact fun movement member => full_flatten (full.movements movement member)

end Score

/-- A movement that is inlined without problems has chords with several members only, if no
name in a chord stands for nothing. -/
theorem Movement.full_of_silent {score : Score} {limit : Nat} {movement : Movement}
    (full : score.IsFull) (member : movement ∈ score.movements)
    (silent : (movement.inlineMacros score limit).2 = [])
    (sounding : MembersSound score.macro? movement.expressions) :
    ∀ item ∈ (movement.inlineMacros score limit).1.expressions, Full item := by
  obtain ⟨values, each, same⟩ := evaluatesTo_of_silent silent
  rw [same]
  exact List.forall_mem_flatten.mpr (each.full
    (fun _ definition found => full.macros definition (Score.mem_of_macro? found))
    sounding Environment.isFull_nil (full.movements movement member) (covers_self _ _))

namespace Expression

section Notes

variable {expression : Expression} {members : List ChordMember} {token : Token}

theorem Sounding.allNotes_of_part (sounding : Sounding expression)
    (isPart : Part (.chord members token) expression) : allNotes members = true := by
  cases sounding with
  | note written => contradiction
  | chord others place notes =>
      cases isPart
      exact notes

/-- A chord in what inlining emits consists of notes. -/
theorem Settled.allNotes_of_part (settled : Settled expression)
    (isPart : Part (.chord members token) expression) : allNotes members = true := by
  cases settled with
  | placeholder place => contradiction
  | playable playable =>
      cases playable with
      | sounding sounding => exact sounding.allNotes_of_part isPart
      | hold sounding place =>
          cases isPart with
          | held _ inside => exact sounding.allNotes_of_part inside
      | _ => contradiction

end Notes

end Expression

namespace Score

/-- **What is written as a chord sounds as a chord.** Every chord that is read has several
members. Where expansion succeeds, each movement in which no name in a chord stands for
nothing has chords of several notes only, at the top level and in holds. -/
theorem chords_sound {settings : Settings} {source : String} {written : Score} {limit : Nat}
    (wasRead : Compiler.read settings source = .ok written)
    (silent : (written.expand limit).2 = []) :
    written.IsFull ∧
      List.Forall₂ (fun before after =>
          MembersSound (written.unroll limit).1.flatten.macro? before.expressions →
            ∀ expression ∈ after.expressions, ∀ members token,
              Part (.chord members token) expression →
                2 ≤ members.length ∧ allNotes members = true)
        (written.unroll limit).1.flatten.movements (written.expand limit).1.movements := by
  have full := (Compiler.formed_of_read wasRead).isFull
  refine ⟨full, ?_⟩
  have settled := settled_of_mem_expand silent
  have unrolled := unroll_silent_of_expand silent
  rw [expand_of_silent unrolled] at silent settled ⊢
  rw [inlineMacros_movements] at settled ⊢
  rw [List.forall₂_map_right_iff, List.forall₂_same]
  intro movement member sounding expression inMovement members token isPart
  constructor
  · exact Movement.full_of_silent (full.unroll limit).flatten member
      (inlineMacros_snd_eq_nil_iff.mp silent movement member) sounding expression inMovement
      members token isPart
  · exact (settled _ (List.mem_map_of_mem member) expression inMovement).allNotes_of_part isPart

/-! ### A chord with a name in it -/

namespace Named

def note (name : Syllable) (text : String) (line column : Nat) : Note :=
  ⟨name, 0, none, none, ⟨text, .note name, ⟨line, column⟩⟩⟩

/-- What the source `m = …` with `piano: do/m` below it is read to. -/
def score (body : List Expression) : Score :=
  ⟨[], [⟨"m", [], body, ⟨"m", .word, ⟨1, 1⟩⟩⟩],
    [⟨"global", [⟨"piano", none,
      [.chord [.note (note .ut "do" 2 8), .reference "m" ⟨"m", .word, ⟨2, 11⟩⟩]
        ⟨"do", .note .ut, ⟨2, 8⟩⟩],
      ⟨"piano", .word, ⟨2, 1⟩⟩⟩]⟩],
    ⟨[("m", .macroAt 1), ("piano", .movementAt 1 1)]⟩, []⟩

/-- The score in which the name stands for a note. -/
def sounding : Score := score [.note (note .mi "mi" 1 5)]

/-- The score in which it stands for nothing. -/
def empty : Score := score []

theorem membersSound_sounding :
    ∀ movement ∈ sounding.movements, MembersSound sounding.macro? movement.expressions := by
  refine List.forall_mem_singleton.mpr fun name reached token evaluates => ?_
  have same : name = "m" := by
    cases reached with
    | direct member => exact List.mem_singleton.mp member
    | through _ found member =>
        obtain rfl := List.mem_singleton.mp (mem_of_macro? found)
        contradiction
  subst same
  have found : sounding.macro? "m" =
      some ⟨"m", [], [.note (note .mi "mi" 1 5)], ⟨"m", .word, ⟨1, 1⟩⟩⟩ := by
    decide +kernel
  have value : Evaluates sounding.macro? [] (.reference "m" token)
      ([[Expression.note (note .mi "mi" 1 5)]].flatten) :=
    .name token rfl found rfl (.cons (.note _) .nil)
  exact absurd (value.deterministic evaluates) (List.cons_ne_nil _ _)

end Named

theorem chords_sound_named :
    Compiler.read Settings.standard "m = mi\npiano: do/m" = .ok Named.sounding ∧
      (Named.sounding.expand 3).2 = [] ∧
      ∀ movement ∈ (Named.sounding.expand 3).1.movements,
        ∀ expression ∈ movement.expressions, ∀ members token,
          Part (.chord members token) expression →
            2 ≤ members.length ∧ allNotes members = true := by
  have wasRead : Compiler.read Settings.standard "m = mi\npiano: do/m" =
      .ok Named.sounding := by
    decide +kernel
  have silent : (Named.sounding.expand 3).2 = [] := by
    decide +kernel
  obtain ⟨_, sound⟩ := chords_sound wasRead silent
  refine ⟨wasRead, silent, ?_⟩
  have unchanged : (Named.sounding.unroll 3).1.flatten = Named.sounding := rfl
  rw [unchanged] at sound
  obtain ⟨here, _⟩ := List.forall₂_cons.mp sound
  exact List.forall_mem_singleton.mpr
    (here (Named.membersSound_sounding _ (List.mem_singleton_self _)))

/-- A name that stands for nothing leaves a chord with the other member only, in a source that
is read and expanded without problems. -/
theorem not_chords_sound :
    ¬∀ settings source written limit, Compiler.read settings source = .ok written →
      written.diagnostics = [] → (written.expand limit).2 = [] →
        ∀ movement ∈ (written.expand limit).1.movements,
          ∀ expression ∈ movement.expressions, ∀ members token,
            Part (.chord members token) expression → 2 ≤ members.length := by
  intro always
  have wasRead : Compiler.read Settings.standard "m =\npiano: do/m" = .ok Named.empty := by
    decide +kernel
  have several := always _ _ _ 2 wasRead rfl rfl _ (List.mem_singleton_self _) _
    (List.mem_singleton_self _) [.note (Named.note .ut "do" 2 8)] _ (.itself _)
  exact absurd several (by decide)

end Score

end Solfege
