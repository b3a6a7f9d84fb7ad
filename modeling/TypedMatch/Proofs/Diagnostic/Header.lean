import Mathlib.Data.List.Forall2
import TypedMatch.Proofs.Terminal.Pointing

/-!
# Where a header points

Spans are ranges of bytes, but their offsets go into reports that count characters.  Of a renderer it is relied
on that a header gives the line and the column at which the span of its report starts, for reports that count
characters and for reports that count bytes; nothing is relied on where the span is no stretch of the source,
counted in that way.  Then a range of bytes is looked for too far behind, unless every character before it takes
one byte: then, and only then, the header gives the place of the character at which the range starts.  Reports
that counted bytes would always give that place.
-/

set_option autoImplicit false

namespace TypedMatch

/-! ## Offsets of bytes -/

theorem length_le_utf8Len (characters : List Char) : characters.length ≤ String.utf8Len characters := by
  induction characters with
  | nil => exact Nat.le_refl 0
  | cons first rest inductionHypothesis =>
      have positive := first.utf8Size_pos
      rw [String.utf8Len_cons, List.length_cons]
      omega

theorem utf8ByteSize_eq_length_iff (text : String) :
    text.utf8ByteSize = text.length ↔ ∀ character ∈ text.toList, character.utf8Size = 1 := by
  rw [← String.utf8Len_toList, ← String.length_toList]
  induction text.toList with
  | nil => simp
  | cons first rest inductionHypothesis =>
      have positive := first.utf8Size_pos
      have restLarge := length_le_utf8Len rest
      rw [List.forall_mem_cons]
      refine Iff.trans ?_ (and_congr_right fun _ => inductionHypothesis)
      rw [String.utf8Len_cons, List.length_cons]
      omega

namespace Span

variable {span : Span} {index : IndexType} {source before inside after : String}

def IsStretch (span : Span) (index : IndexType) (source : String) : Prop :=
  ∃ before inside after, span.Covers index source before inside after

theorem Covers.length_lt (covers : span.Covers index source before inside after) :
    before.length < source.length := by
  have further : 0 < (inside ++ after).length :=
    Nat.pos_of_ne_zero fun empty => covers.atCharacter (String.length_eq_zero_iff.mp empty)
  rw [covers.split, String.append_assoc, String.length_append]
  omega

theorem IsStretch.start_lt (stretch : span.IsStretch .character source) : span.start < source.length := by
  obtain ⟨before, inside, after, covers⟩ := stretch
  rw [covers.start]
  exact covers.length_lt

theorem eq_of_isPrefix {before other : String} (isPrefix : before.toList <+: other.toList)
    (sameSize : before.utf8ByteSize = other.utf8ByteSize) : before = other := by
  obtain ⟨rest, joined⟩ := isPrefix
  rw [← String.utf8Len_toList, ← String.utf8Len_toList, ← joined, String.utf8Len_append] at sameSize
  cases rest with
  | nil => exact String.toList_injective (by rw [← joined, List.append_nil])
  | cons first more =>
      have positive := first.utf8Size_pos
      rw [String.utf8Len_cons] at sameSize
      omega

theorem Covers.before_unique {other otherInside otherAfter : String}
    (covers : span.Covers .byte source before inside after)
    (otherCovers : span.Covers .byte source other otherInside otherAfter) : before = other := by
  have sameSize : before.utf8ByteSize = other.utf8ByteSize := covers.start.symm.trans otherCovers.start
  have isPrefix : before.toList <+: source.toList := by
    rw [covers.split, String.append_assoc, String.toList_append]
    exact List.prefix_append _ _
  have otherPrefix : other.toList <+: source.toList := by
    rw [otherCovers.split, String.append_assoc, String.toList_append]
    exact List.prefix_append _ _
  rcases List.prefix_or_prefix_of_prefix isPrefix otherPrefix with shorter | longer
  · exact eq_of_isPrefix shorter sameSize
  · exact (eq_of_isPrefix longer sameSize.symm).symm

theorem Covers.character_of_narrow (covers : span.Covers .byte source before inside after)
    (narrow : ∀ character ∈ source.toList, character.utf8Size = 1) :
    span.Covers .character source before inside after := by
  rw [covers.split, String.toList_append, String.toList_append, List.forall_mem_append,
    List.forall_mem_append] at narrow
  obtain ⟨⟨beforeNarrow, insideNarrow⟩, -⟩ := narrow
  have beforeSize := (utf8ByteSize_eq_length_iff before).mpr beforeNarrow
  have insideSize := (utf8ByteSize_eq_length_iff inside).mpr insideNarrow
  refine ⟨covers.split, ?_, ?_, covers.atCharacter⟩
  · exact covers.start.trans beforeSize
  · exact covers.stop.trans (congrArg₂ (· + ·) beforeSize insideSize)

end Span

/-! ## One header -/

/-- The header that gives the place of the character that has so many characters before it. -/
def Header.ofCharacter (ends : Text.LineEnd) (source : String) (number : Nat) : Header :=
  ⟨inputName, Text.place ends source.toList number⟩

namespace Printed

variable {printed : Printed} {ends : Text.LineEnd} {source : String} {span : Span}

/-- Whether the header gives the place of the character at which a range of bytes starts. -/
def PointsAtRange (printed : Printed) (ends : Text.LineEnd) (source : String) (span : Span) : Prop :=
  ∀ before inside after, span.Covers .byte source before inside after →
    printed.header = some (.ofCharacter ends source before.length)

/-- What the header of a printed diagnostic gives. -/
structure Points (printed : Printed) (ends : Text.LineEnd) (source : String) (span : Span) : Prop where
  counted : printed.header = some (.ofCharacter ends source span.start)
  atRange_iff : printed.PointsAtRange ends source span ↔
    ∀ before inside after, span.Covers .byte source before inside after →
      ∀ character ∈ before.toList, character.utf8Size = 1

theorem points_of_counted (stretch : span.IsStretch .character source)
    (counted : printed.header = some (.ofCharacter ends source span.start)) :
    printed.Points ends source span := by
  refine ⟨counted, ?_⟩
  refine forall_congr' fun before => forall_congr' fun inside => forall_congr' fun after =>
    forall_congr' fun covers => ?_
  have startWithin : span.start ≤ source.toList.length := by
    rw [String.length_toList]
    exact Nat.le_of_lt stretch.start_lt
  have beforeWithin : before.length ≤ source.toList.length := by
    rw [String.length_toList]
    exact Nat.le_of_lt covers.length_lt
  have bytes : span.start = before.utf8ByteSize := covers.start
  rw [← utf8ByteSize_eq_length_iff, ← bytes, counted]
  constructor
  · intro same
    exact Text.place_injective startWithin beforeWithin (congrArg Header.place (Option.some.inj same))
  · intro same
    rw [same]

end Printed

/-! ## All diagnostics -/

namespace Renderer

variable {Failure : Type} {renderer : Renderer Failure} {ends : Text.LineEnd} {source : String}
  {diagnostic : Diagnostic} {diagnostics : List Diagnostic}

theorem print_of_character (byCharacter : renderer.PointsBy ends .character)
    (stretch : diagnostic.span.IsStretch .character source) :
    ∃ printed, renderer.print source diagnostic.report = .ok printed ∧
      printed.Points ends source diagnostic.span := by
  obtain ⟨before, inside, after, covers⟩ := stretch
  obtain ⟨printed, prints, header⟩ := byCharacter diagnostic.report source before inside after rfl covers
  refine ⟨printed, prints, Printed.points_of_counted ⟨before, inside, after, covers⟩ ?_⟩
  have start : diagnostic.span.start = before.length := covers.start
  rw [header, start]
  rfl

theorem printAll_of_each (make : Diagnostic → Report) (Good : Diagnostic → Printed → Prop)
    (each : ∀ diagnostic ∈ diagnostics, ∃ printed,
      renderer.print source (make diagnostic) = .ok printed ∧ Good diagnostic printed) :
    ∃ printed, renderer.printAll source (diagnostics.map make) = .ok printed ∧
      List.Forall₂ Good diagnostics printed := by
  induction diagnostics with
  | nil => exact ⟨[], rfl, .nil⟩
  | cons first rest inductionHypothesis =>
      obtain ⟨firstPrints, restPrint⟩ := List.forall_mem_cons.mp each
      obtain ⟨printed, prints, good⟩ := firstPrints
      obtain ⟨more, morePrint, moreGood⟩ := inductionHypothesis restPrint
      refine ⟨printed :: more, ?_, .cons good moreGood⟩
      unfold printAll at morePrint ⊢
      rw [List.map_cons, List.mapM_cons, prints, morePrint]
      rfl

/-- Diagnostics are printed one after the other, and of each printed one something is true. -/
def PrintsEach (renderer : Renderer Failure) (source : String) (diagnostics : List Diagnostic)
    (Good : Diagnostic → Printed → Prop) : Prop :=
  ∃ printed, renderer.render source diagnostics = .ok (String.join (printed.map Printed.text)) ∧
    List.Forall₂ (fun diagnostic printed => renderer.print source diagnostic.report = .ok printed ∧
      Good diagnostic printed) diagnostics printed

theorem printsEach_of_each {Good : Diagnostic → Printed → Prop}
    (each : ∀ diagnostic ∈ diagnostics, ∃ printed,
      renderer.print source diagnostic.report = .ok printed ∧ Good diagnostic printed) :
    renderer.PrintsEach source diagnostics Good := by
  have eachAlsoPrinted : ∀ diagnostic ∈ diagnostics, ∃ printed,
      renderer.print source diagnostic.report = .ok printed ∧
        renderer.print source diagnostic.report = .ok printed ∧ Good diagnostic printed := by
    intro diagnostic among
    obtain ⟨printed, prints, good⟩ := each diagnostic among
    exact ⟨printed, prints, prints, good⟩
  obtain ⟨printed, prints, good⟩ := printAll_of_each _ _ eachAlsoPrinted
  refine ⟨printed, ?_, good⟩
  rw [render, prints]
  rfl

theorem PrintsEach.imp {Good Better : Diagnostic → Printed → Prop}
    (prints : renderer.PrintsEach source diagnostics Good)
    (better : ∀ diagnostic ∈ diagnostics, ∀ printed, Good diagnostic printed → Better diagnostic printed) :
    renderer.PrintsEach source diagnostics Better := by
  obtain ⟨printed, renders, each⟩ := prints
  refine ⟨printed, renders, ?_⟩
  clear renders
  induction each with
  | nil => exact .nil
  | cons head tail inductionHypothesis =>
      obtain ⟨firstBetter, restBetter⟩ := List.forall_mem_cons.mp better
      exact .cons ⟨head.1, firstBetter _ head.2⟩ (inductionHypothesis restBetter)

/-- Diagnostics whose spans are ranges of bytes are printed one after the other if their spans lie in the source
also as ranges of characters.  Each header then gives the place of the character whose number is the first
offset of the span, which is the place at which the range of bytes starts just if every character before it
takes one byte.  So every header is right where the source has nothing but characters of one byte; and if the
reports counted bytes, every header would be right in any source. -/
theorem render_byte_ranges (byCharacter : renderer.PointsBy ends .character)
    (byByte : renderer.PointsBy ends .byte) (source : String) (diagnostics : List Diagnostic)
    (ranges : ∀ diagnostic ∈ diagnostics, diagnostic.span.IsStretch .byte source) :
    ((∀ diagnostic ∈ diagnostics, diagnostic.span.IsStretch .character source) →
      renderer.PrintsEach source diagnostics fun diagnostic printed =>
        printed.Points ends source diagnostic.span) ∧
    ((∀ character ∈ source.toList, character.utf8Size = 1) →
      renderer.PrintsEach source diagnostics fun diagnostic printed =>
        printed.PointsAtRange ends source diagnostic.span) ∧
    ∃ printed, renderer.printAll source
        (diagnostics.map fun diagnostic => { diagnostic.report with indexType := .byte }) = .ok printed ∧
      List.Forall₂ (fun diagnostic printed => printed.PointsAtRange ends source diagnostic.span)
        diagnostics printed := by
  have inCharacters (stretches : ∀ diagnostic ∈ diagnostics, diagnostic.span.IsStretch .character source) :
      renderer.PrintsEach source diagnostics fun diagnostic printed =>
        printed.Points ends source diagnostic.span :=
    printsEach_of_each fun diagnostic among => print_of_character byCharacter (stretches diagnostic among)
  refine ⟨inCharacters, ?_, ?_⟩
  · intro narrow
    have stretches : ∀ diagnostic ∈ diagnostics, diagnostic.span.IsStretch .character source := by
      intro diagnostic among
      obtain ⟨before, inside, after, covers⟩ := ranges diagnostic among
      exact ⟨before, inside, after, covers.character_of_narrow narrow⟩
    refine (inCharacters stretches).imp ?_
    intro diagnostic among printed points
    refine points.atRange_iff.mpr ?_
    intro before inside after covers character isBefore
    apply narrow
    rw [covers.split, String.toList_append, String.toList_append]
    exact List.mem_append_left _ (List.mem_append_left _ isBefore)
  · apply printAll_of_each fun diagnostic => { diagnostic.report with indexType := .byte }
    intro diagnostic among
    obtain ⟨before, inside, after, covers⟩ := ranges diagnostic among
    obtain ⟨printed, prints, header⟩ := byByte { diagnostic.report with indexType := .byte } source
      before inside after rfl covers
    refine ⟨printed, prints, ?_⟩
    intro other otherInside otherAfter otherCovers
    rw [header, ← covers.before_unique otherCovers]
    rfl

end Renderer

/-! ## A source in which a header is wrong -/

/-- A warning about the first character of a second line, by its number of bytes, where the first line has a
character of two bytes. -/
def secondLineDiagnostic : Diagnostic :=
  { severity := .warning, message := "m", span := ⟨3, 4⟩, notes := [], help := none, code := none }

theorem secondLineDiagnostic_bytes : secondLineDiagnostic.span.Covers .byte "é\nab" "é\n" "a" "b" := by
  constructor <;> decide

theorem secondLineDiagnostic_characters :
    secondLineDiagnostic.span.Covers .character "é\nab" "é\na" "b" "" := by
  constructor <;> decide

theorem secondLineDiagnostic_isStretch (index : IndexType) :
    ∀ diagnostic ∈ [secondLineDiagnostic], diagnostic.span.IsStretch index "é\nab" := by
  intro diagnostic among
  rw [List.mem_singleton.mp among]
  cases index with
  | character => exact ⟨_, _, _, secondLineDiagnostic_characters⟩
  | byte => exact ⟨_, _, _, secondLineDiagnostic_bytes⟩

theorem not_pointsAtRange_of_wide {printed : Printed} {ends : Text.LineEnd}
    (points : printed.Points ends "é\nab" secondLineDiagnostic.span) :
    ¬printed.PointsAtRange ends "é\nab" secondLineDiagnostic.span := by
  intro atRange
  have narrow := points.atRange_iff.mp atRange _ _ _ secondLineDiagnostic_bytes 'é' (by decide)
  exact absurd narrow (by decide)

/-- The range starts in the first column of the second line, but the header says the second column. -/
theorem secondLineDiagnostic_misplaced :
    Text.place Terminal.endsLine "é\nab".toList "é\n".length = ⟨1, 0⟩ ∧
      Terminal.renderer.render "é\nab" [secondLineDiagnostic] =
        .ok ("Warning: m\n" ++ "   ╭─[ <input>:2:2 ]\n" ++ "   │\n" ++ " 2 │ ab\n" ++ "   │  ┬  \n" ++
          "   │  ╰── in this match\n" ++ "───╯\n") ∧
      Terminal.renderer.PrintsEach "é\nab" [secondLineDiagnostic] fun diagnostic printed =>
        printed.header = some ⟨"<input>", ⟨1, 1⟩⟩ ∧
          ¬printed.PointsAtRange Terminal.endsLine "é\nab" diagnostic.span := by
  refine ⟨by decide, by decide +kernel, ?_⟩
  have prints := (Renderer.render_byte_ranges (Terminal.pointsBy .character) (Terminal.pointsBy .byte)
    "é\nab" [secondLineDiagnostic] (secondLineDiagnostic_isStretch .byte)).1
      (secondLineDiagnostic_isStretch .character)
  refine prints.imp ?_
  intro diagnostic among printed points
  cases List.mem_singleton.mp among
  refine ⟨?_, not_pointsAtRange_of_wide points⟩
  rw [points.counted]
  decide

/-- So the headers of a renderer as it is relied on need not give the places at which ranges of bytes start. -/
theorem header_not_at_byte_offset :
    ¬∀ (Failure : Type) (renderer : Renderer Failure) (ends : Text.LineEnd),
      renderer.PointsBy ends .character → renderer.PointsBy ends .byte →
      ∀ (source : String) (diagnostics : List Diagnostic),
        (∀ diagnostic ∈ diagnostics, diagnostic.span.IsStretch .byte source) →
        renderer.PrintsEach source diagnostics fun diagnostic printed =>
          printed.PointsAtRange ends source diagnostic.span := by
  intro always
  obtain ⟨printed, -, each⟩ := always _ _ _ (Terminal.pointsBy .character) (Terminal.pointsBy .byte)
    "é\nab" [secondLineDiagnostic] (secondLineDiagnostic_isStretch .byte)
  cases each with
  | cons facts none =>
      obtain ⟨prints, atRange⟩ := facts
      obtain ⟨other, otherPrints, points⟩ := Renderer.print_of_character (Terminal.pointsBy .character)
        (secondLineDiagnostic_isStretch .character _ (List.mem_singleton.mpr rfl))
      cases prints.symm.trans otherPrints
      exact not_pointsAtRange_of_wide points atRange

end TypedMatch
