import Solfege.Document.Basic
import Solfege.Score.Basic

/-!
Contract: tokens, diagnostics and scores as documents.

Owns:
- the names and the order of the fields of everything that the program prints.

Does not own: the formats. The places of expressions are not printed.
-/

namespace Solfege.Document

def ofToken (token : Token) : Document :=
  mapping [
    ("text", text token.text),
    ("kind", text token.kind.name),
    ("line", natural token.position.line),
    ("col", natural token.position.column)]

/-- A report. Without advice it has no such field. -/
def ofReport (report : Diagnostic.Report) : Document :=
  let fields := [
    ("kind", text report.kind.name),
    ("line", natural report.position.line),
    ("col", natural report.position.column),
    ("message", text report.message)]
  match report.tip with
  | none => mapping fields
  | some tip => mapping (fields ++ [("tip", text tip)])

def ofDiagnostic (diagnostic : Diagnostic) : Document :=
  ofReport diagnostic.report

/-- A value of one of several kinds: the kind is the first field. -/
def ofKind (kind : String) (fields : List (String × Document)) : Document :=
  mapping (("kind", text kind) :: fields)

def ofDuration (duration : Duration) : Document :=
  mapping [("num", natural duration.numerator), ("den", natural duration.denominator)]

def ofNote (note : Note) : Document :=
  ofKind "Note" [
    ("name", text note.name.label),
    ("semitone", integer note.semitones),
    ("octave", optional natural note.octave),
    ("duration", optional ofDuration note.duration)]

def ofChordMember : ChordMember → Document
  | .note note => ofNote note
  | .reference name _ => ofKind "Ident" [("name", text name)]

def ofDirective : Directive → Document
  | .octave direction amount =>
      ofKind "SetOctave" [("direction", text direction.label), ("amount", natural amount)]
  | .duration value => ofKind "SetDuration" [("value", ofDuration value)]
  | .tempo beatsPerMinute => ofKind "SetTempo" [("bpm", natural beatsPerMinute)]
  | .tone direction note =>
      ofKind "SetTone" [("direction", text direction.label), ("note", text note.label)]
  | .measure beats unit =>
      ofKind "SetMeasure" [("beats", natural beats), ("unit", natural unit)]
  | .volume value => ofKind "SetVolume" [("value", natural value)]
  | .interval value => ofKind "SetInterval" [("value", natural value)]

mutual

def ofExpression : Expression → Document
  | .note note => ofNote note
  | .chord members _ => ofKind "Chord" [("notes", sequence (members.map ofChordMember))]
  | .reference name _ => ofKind "Ident" [("name", text name)]
  | .call name arguments _ =>
      ofKind "MacroCall"
        [("name", text name), ("args", sequence (expressionsOnto [] arguments).reverse)]
  | .repetition count _ => ofKind "Repetition" [("count", natural count)]
  | .hold inner _ => ofKind "Hold" [("inner", ofExpression inner)]
  | .release _ => ofKind "Release" []
  | .group items _ =>
      ofKind "Group" [("items", sequence (expressionsOnto [] items).reverse)]
  | .directive directive _ => ofDirective directive
  | .bar _ => ofKind "Bar" []
  | .placeholder _ => ofKind "Error" []

/-- The documents of expressions, the latest first, in front of those already made. -/
def expressionsOnto (made : List Document) : List Expression → List Document
  | [] => made
  | expression :: rest => expressionsOnto (ofExpression expression :: made) rest

end

def ofExpressions (expressions : List Expression) : Document :=
  sequence (expressionsOnto [] expressions).reverse

def ofMetadata : Metadata → Document
  | .title written => ofKind "Title" [("text", text written)]
  | .copyRight written => ofKind "CopyRight" [("text", text written)]

def ofMacro (definition : Macro) : Document :=
  mapping [
    ("name", text definition.name),
    ("params", sequence (definition.parameters.map text)),
    ("body", ofExpressions definition.body)]

def ofMovement (movement : Movement) : Document :=
  mapping [
    ("instrument", text movement.instrument),
    ("tag", optional text movement.tag),
    ("expressions", ofExpressions movement.expressions)]

def ofTrack (track : Track) : Document :=
  mapping [
    ("name", text track.name),
    ("movements", sequence (track.movements.map ofMovement))]

/-- What a name stands for, tagged by its sort. -/
def ofEntry : NameTable.Entry → Document
  | .macroAt index => tagged "macro" (natural index)
  | .movementAt track movement =>
      tagged "movement" (mapping [("track", natural track), ("movement", natural movement)])

def ofNames (table : NameTable) : Document :=
  mapping (table.toList.map fun (name, entry) => (name, ofEntry entry))

def ofScore (score : Score) : Document :=
  mapping [
    ("metadata", sequence (score.metadata.map ofMetadata)),
    ("macros", sequence (score.macros.map ofMacro)),
    ("tracks", sequence (score.tracks.map ofTrack)),
    ("idents", ofNames score.names),
    ("diagnostics", sequence (score.diagnostics.map ofDiagnostic))]

end Solfege.Document
