import TypedMatch.Diagnostic.Basic
import TypedMatch.Text.Lines

/-!
# Reports

Diagnostics are shown to the user by a renderer, which is not part of this library and stands here as a
parameter.  What the library does is to make a report of every diagnostic, to hand the reports over one by one,
each with the whole source, and to put the printed ones in a row.  The offsets of a span go into the report as
they are.  How they are to be counted is a setting of the report: in characters, unless something else is set.
-/

set_option autoImplicit false

namespace TypedMatch

/-- What the offsets of a report count. -/
inductive IndexType where
  | character
  | byte
deriving DecidableEq, Repr, Inhabited

def IndexType.size : IndexType → String → Nat
  | character, text => text.length
  | byte, text => text.utf8ByteSize

/-- One report, with its only label at its span. -/
structure Report where
  severity : Severity
  sourceName : String
  span : Span
  indexType : IndexType := .character
  message : String
  code : Option String
  label : String
  notes : List String
  help : Option String
deriving DecidableEq, Repr, Inhabited

def inputName : String := "<input>"

def Diagnostic.report (diagnostic : Diagnostic) : Report :=
  { severity := diagnostic.severity
    sourceName := inputName
    span := diagnostic.span
    message := diagnostic.message
    code := diagnostic.code
    label := "in this match"
    notes := diagnostic.notes
    help := diagnostic.help }

structure Header where
  sourceName : String
  place : Text.Place
deriving DecidableEq, Repr, Inhabited

def Header.text (header : Header) : String :=
  header.sourceName ++ ":" ++ toString (header.place.line + 1) ++ ":"
    ++ toString (header.place.column + 1)

/-- A printed report: its header, if it has one, and the text above and below that. -/
structure Printed where
  above : String
  header : Option Header
  below : String
deriving DecidableEq, Repr, Inhabited

def Printed.text (printed : Printed) : String :=
  printed.above ++ (printed.header.map Header.text).getD "" ++ printed.below

/-- A renderer prints a report with its source, or fails in a way of its own. -/
structure Renderer (Failure : Type) where
  print : String → Report → Except Failure Printed

namespace Renderer

variable {Failure : Type} (renderer : Renderer Failure)

def printAll (source : String) (reports : List Report) : Except Failure (List Printed) :=
  reports.mapM (renderer.print source)

def render (source : String) (diagnostics : List Diagnostic) : Except Failure String := do
  let printed ← renderer.printAll source (diagnostics.map Diagnostic.report)
  return String.join (printed.map Printed.text)

end Renderer

/-! ## What is relied on -/

/-- Whether a span is a stretch of a source that starts at a character: behind `before` and over `inside`. -/
structure Span.Covers (span : Span) (index : IndexType) (source before inside after : String) : Prop where
  split : source = before ++ inside ++ after
  start : span.start = index.size before
  stop : span.stop = index.size before + index.size inside
  atCharacter : inside ++ after ≠ ""

/-- Whether reports that count in this way are printed with a header that gives the line and the column at which
their span starts, if that span is a stretch of the source. -/
def Renderer.PointsBy {Failure : Type} (renderer : Renderer Failure) (ends : Text.LineEnd)
    (index : IndexType) : Prop :=
  ∀ (report : Report) (source before inside after : String), report.indexType = index →
    report.span.Covers index source before inside after →
    ∃ printed, renderer.print source report = .ok printed ∧
      printed.header = some ⟨report.sourceName, Text.place ends source.toList before.length⟩

end TypedMatch
