import TypedMatch.Diagnostic.Report
import TypedMatch.Terminal.Source

/-!
# Reports on a terminal

One renderer, for running the library: it prints a report for a terminal, without colours.  The lines at which
the span begins and ends are framed, with the help and the notes below.  A span within one line is underlined,
and the label hangs from the middle of the line below it; a span over several lines has a bracket at its left
with the label at its foot.  Where the span lies outside the source, the headline is all there is; where only
its end does, the marks are missing.
-/

set_option autoImplicit false

namespace TypedMatch.Terminal

def copies (count : Nat) (character : Char) : String :=
  String.ofList (List.replicate count character)

def spaces (count : Nat) : String := copies count ' '

def headline (report : Report) : String :=
  let code := match report.code with
    | some code => "[" ++ code ++ spaces (2 - code.length) ++ "] "
    | none => ""
  code ++ report.severity.title ++ ": " ++ report.message

/-- The margin beside the frame: as wide as the highest line number, and a column on either side. -/
structure Margin where
  width : Nat
deriving DecidableEq, Repr, Inhabited

namespace Margin

def ofLine (number : Nat) : Margin := ⟨(toString number).length⟩

def blank (margin : Margin) : String := spaces (margin.width + 2)

def bar (margin : Margin) : String := margin.blank ++ "│ "

def numbered (margin : Margin) (number : Nat) : String :=
  " " ++ spaces (margin.width - (toString number).length) ++ toString number ++ " │ "

end Margin

/-! ## Spans in a source -/

/-- How many characters begin before an offset of bytes; beyond the end, every byte counts for one. -/
def charactersBefore : List Char → Nat → Nat
  | [], bytes => bytes
  | first :: rest, bytes =>
      if bytes = 0 then 0 else charactersBefore rest (bytes - first.utf8Size) + 1

def characterAt (text : String) (offset : Nat) : IndexType → Nat
  | .character => offset
  | .byte => charactersBefore text.toList offset

/-- A span in a source: the place of its start, and the line and column of its end, the line being that of its
last character. -/
structure Extent where
  start : Text.Place
  endLine : Nat
  endColumn : Nat
  /-- Whether the end is in the source.  A span may end one character behind it; then it has no mark. -/
  marked : Bool
deriving DecidableEq, Repr, Inhabited

namespace Extent

/-- Where a span lies, counted in characters, if it lies in the source.  An empty span ends where it starts. -/
def ofSpan? (source : Source) (span : Span) : Option Extent := do
  let start ← source.locate span.start
  let marked := decide (span.stop ≤ source.length)
  if span.start < span.stop then
    let last ← source.locate (span.stop - 1)
    return ⟨start, last.line, last.column + 1, marked⟩
  else
    return ⟨start, start.line, start.column, marked⟩

def isInline (extent : Extent) : Bool := extent.start.line == extent.endLine

def opensSecondLine (extent : Extent) : Bool :=
  !extent.isInline && extent.start.line == 1 && extent.start.column == 0

end Extent

/-! ## The lines at a span -/

def lineText (source : Source) (index : Nat) : String :=
  String.ofList (Source.display (source.line index))

def row (source : Source) (index count : Nat) (sign : Nat → Source.Sign) : String :=
  String.ofList (Source.underscore (source.line index) count sign)

def gap : Source.Sign := ⟨' ', ' '⟩

def stroke : Source.Sign := ⟨'─', '─'⟩

def upperSign (first last column : Nat) : Source.Sign :=
  if column = (first + last) / 2 then if first = last then ⟨'│', ' '⟩ else ⟨'┬', '─'⟩
  else if first ≤ column ∧ column < last then stroke
  else gap

def lowerSign (first last column : Nat) : Source.Sign :=
  if column < (first + last) / 2 then gap
  else if column = (first + last) / 2 then ⟨'╰', '─'⟩
  else stroke

def inlineBody (source : Source) (margin : Margin) (extent : Extent) (label : String) : List String :=
  if extent.marked then
    let marks := row source extent.start.line (extent.endColumn + 2)
    [margin.numbered (extent.start.line + 1) ++ lineText source extent.start.line,
      margin.bar ++ marks (upperSign extent.start.column extent.endColumn),
      margin.bar ++ marks (lowerSign extent.start.column extent.endColumn) ++ " " ++ label]
  else
    [margin.bar]

def bracketBody (source : Source) (margin : Margin) (extent : Extent) (label : String) : List String :=
  let opening :=
    margin.numbered (extent.start.line + 1) ++ "╭─▶ " ++ lineText source extent.start.line
  let omission := margin.blank ++ "┆ ┆   "
  if extent.marked then
    let marks := row source extent.endLine ((source.line extent.endLine).length + 2)
    [opening] ++ (if extent.start.line + 1 < extent.endLine then [omission] else [])
      ++ [margin.numbered (extent.endLine + 1) ++ "├─▶ " ++ lineText source extent.endLine,
        margin.bar ++ "│   " ++ marks fun _ => gap,
        margin.bar ++ "╰───" ++ marks (fun _ => stroke) ++ " " ++ label]
  else
    [opening, omission]

def body (source : Source) (margin : Margin) (extent : Extent) (label : String) : List String :=
  if extent.isInline then inlineBody source margin extent label
  else bracketBody source margin extent label

/-! ## Help and notes -/

def indent (margin : Margin) (extent : Extent) : String :=
  margin.bar ++
    if extent.isInline then "" else if extent.opensSecondLine then "│   " else "    "

/-- The lines of a text below the frame.  A line ends at a line feed, which may follow a carriage
return, and the last line needs no end. -/
def textLines (text : String) : List String :=
  (Text.lines (fun character _ => character == '\n') text.toList).map fun line =>
    String.ofList <|
      match line.reverse with
      | '\n' :: '\r' :: rest => rest.reverse
      | '\n' :: rest => rest.reverse
      | _ => line

def remark (indent title text : String) : List String :=
  let rest := match textLines text with
    | [] => []
    | first :: more =>
        (indent ++ title ++ first)
          :: more.map fun line => indent ++ spaces title.length ++ line
  indent :: rest

def noteTitle (count index : Nat) : String :=
  if count = 1 then "Note: " else "Note " ++ toString (index + 1) ++ ": "

def remarks (indent : String) (report : Report) : List String :=
  let help := match report.help with
    | some help => remark indent "Help: " help
    | none => []
  let count := report.notes.length
  help ++ (report.notes.mapIdx fun index note =>
    remark indent (noteTitle count index) note).flatten

/-! ## Whole reports -/

/-- Why a report cannot be printed. -/
inductive Refusal where
  | reversedSpan
deriving DecidableEq, Repr, Inhabited

def Refusal.message : Refusal → String
  | reversedSpan => "Label start is after its end"

def linesBelow (source : Source) (margin : Margin) (extent : Extent) (report : Report) : List String :=
  (margin.blank ++ "│") :: body source margin extent report.label
    ++ remarks (indent margin extent) report
    ++ [copies (margin.width + 2) '─' ++ "╯"]

def framed (source : Source) (extent : Extent) (report : Report) : Printed :=
  let margin := Margin.ofLine (extent.endLine + 1)
  { above := headline report ++ "\n" ++ margin.blank ++ "╭─[ "
    header := some ⟨report.sourceName, extent.start⟩
    below := " ]\n" ++ String.join ((linesBelow source margin extent report).map (· ++ "\n")) }

def print (text : String) (report : Report) : Except Refusal Printed :=
  if report.span.stop < report.span.start then .error .reversedSpan
  else
    let source := Source.ofString text
    let span : Span :=
      ⟨characterAt text report.span.start report.indexType,
        characterAt text report.span.stop report.indexType⟩
    match Extent.ofSpan? source span with
    | some extent => .ok (framed source extent report)
    | none => .ok ⟨headline report ++ "\n", none, ""⟩

def renderer : Renderer Refusal := ⟨print⟩

end TypedMatch.Terminal
