import Mathlib.Data.String.Basic
import TypedMatch.Terminal.Layout

/-!
# Where headers on a terminal point

The terminal finds a character by the lines of its source, and a byte by the characters before it.  Either way
it finds the place of the character at which a span starts, so its headers give that place for both ways of
counting.
-/

set_option autoImplicit false

namespace TypedMatch.Terminal

namespace Source

variable {ends : Text.LineEnd} {text : List Char} {line : List Char} {more : List (List Char)} {first : Char}
  {number : Nat}

theorem locateIn_cons_of_ne_nil (notLast : more ≠ []) :
    locateIn (line :: more) number =
      if number < line.length then some ⟨0, number⟩
      else (locateIn more (number - line.length)).map fun found => ⟨found.line + 1, found.column⟩ := by
  cases more with
  | nil => exact absurd rfl notLast
  | cons next rest => rfl

theorem locateIn_zero (nonempty : line ≠ []) : locateIn (line :: more) 0 = some ⟨0, 0⟩ := by
  cases more with
  | nil => rfl
  | cons next rest =>
      rw [locateIn_cons_of_ne_nil (List.cons_ne_nil _ _), if_pos (List.length_pos_of_ne_nil nonempty)]

theorem locateIn_longer :
    locateIn ((first :: line) :: more) (number + 1) =
      (locateIn (line :: more) number).map (Text.Place.after false) := by
  cases more with
  | nil =>
      simp only [locateIn, List.length_cons, Nat.add_le_add_iff_right]
      split <;> simp [Text.Place.after]
  | cons next rest =>
      rw [locateIn_cons_of_ne_nil (List.cons_ne_nil _ _), locateIn_cons_of_ne_nil (List.cons_ne_nil _ _),
        List.length_cons, Nat.add_sub_add_right]
      simp only [Nat.add_lt_add_iff_right]
      split
      · simp [Text.Place.after]
      · rw [Option.map_map]
        congr 1

theorem locateIn_behind (notLast : more ≠ []) :
    locateIn ([first] :: more) (number + 1) = (locateIn more number).map (Text.Place.after true) := by
  rw [locateIn_cons_of_ne_nil notLast, if_neg (by simp)]
  rfl

theorem lines_ne_nil (nonempty : text ≠ []) : Text.lines ends text ≠ [] := by
  intro none
  have joined := Text.flatten_lines ends text
  rw [none] at joined
  exact nonempty joined.symm

theorem locateIn_lines (within : number < text.length) :
    locateIn (Text.lines ends text) number = some (Text.place ends text number) := by
  induction text generalizing number with
  | nil => cases within
  | cons first rest inductionHypothesis =>
      have behind {before : Nat} (same : number = before + 1) :
          rest ≠ [] ∧ locateIn (Text.lines ends rest) before = some (Text.place ends rest before) := by
        have shorter : before < rest.length := by
          rw [same, List.length_cons] at within
          omega
        exact ⟨List.ne_nil_of_length_pos (Nat.zero_lt_of_lt shorter), inductionHypothesis shorter⟩
      by_cases ended : ends first rest = true
      · rw [Text.lines, if_pos ended]
        cases number with
        | zero => exact locateIn_zero (List.cons_ne_nil _ _)
        | succ before =>
            obtain ⟨notLast, located⟩ := behind rfl
            rw [locateIn_behind (lines_ne_nil notLast), located, Option.map_some, Text.place, ended]
      · rw [Text.lines, if_neg ended]
        cases number with
        | zero => split <;> exact locateIn_zero (List.cons_ne_nil _ _)
        | succ before =>
            obtain ⟨notLast, located⟩ := behind rfl
            split
            · next none => exact absurd none (lines_ne_nil notLast)
            · next line more cut =>
                rw [locateIn_longer, ← cut, located, Option.map_some, Text.place, eq_false_of_ne_true ended]

theorem locate_ofString {text : String} (within : number < text.length) :
    (ofString text).locate number = some (Text.place endsLine text.toList number) := by
  have within' : number < text.toList.length := by rwa [String.length_toList]
  have located : locateIn (Text.lines endsLine text.toList) number =
      some (Text.place endsLine text.toList number) := locateIn_lines within'
  unfold locate ofString
  split
  · next none =>
      exact absurd none (lines_ne_nil (List.ne_nil_of_length_pos (Nat.zero_lt_of_lt within')))
  · exact located

end Source

/-! ## Offsets -/

theorem charactersBefore_append (before behind : List Char) :
    charactersBefore (before ++ behind) (String.utf8Len before) = before.length := by
  induction before with
  | nil => cases behind <;> rfl
  | cons first rest inductionHypothesis =>
      have positive := first.utf8Size_pos
      have remaining : String.utf8Len (first :: rest) - first.utf8Size = String.utf8Len rest := by
        rw [String.utf8Len_cons, Nat.add_sub_cancel]
      have nonempty : String.utf8Len (first :: rest) ≠ 0 := by
        rw [String.utf8Len_cons]
        omega
      rw [List.cons_append, charactersBefore, if_neg nonempty, remaining, inductionHypothesis, List.length_cons]

theorem characterAt_size (before behind : String) (index : IndexType) :
    characterAt (before ++ behind) (index.size before) index = before.length := by
  cases index with
  | character => rfl
  | byte =>
      rw [characterAt, IndexType.size, String.toList_append, ← String.utf8Len_toList,
        charactersBefore_append, String.length_toList]

theorem start_of_ofSpan? {text : String} {span : Span} (starts : span.start < text.length)
    (stops : span.stop ≤ text.length) :
    ∃ extent, Extent.ofSpan? (.ofString text) span = some extent ∧
      extent.start = Text.place endsLine text.toList span.start := by
  have located := Source.locate_ofString starts
  by_cases longer : span.start < span.stop
  · have lastWithin : span.stop - 1 < text.length := by omega
    have last := Source.locate_ofString lastWithin
    simp [Extent.ofSpan?, located, longer, last]
  · simp [Extent.ofSpan?, located, longer]

theorem pointsBy (index : IndexType) : renderer.PointsBy endsLine index := by
  intro report source before inside after counted range
  have startsAt : characterAt source report.span.start index = before.length := by
    rw [range.split, range.start, String.append_assoc, characterAt_size]
  have stopsAt : characterAt source report.span.stop index = before.length + inside.length := by
    have joined : index.size before + index.size inside = index.size (before ++ inside) := by
      cases index with
      | character => exact (String.length_append _ _).symm
      | byte => exact String.utf8ByteSize_append.symm
    rw [range.split, range.stop, joined, characterAt_size, String.length_append]
  have sourceLength : source.length = before.length + inside.length + after.length := by
    rw [range.split, String.length_append, String.length_append]
  have further : 0 < inside.length + after.length := by
    rw [← String.length_append]
    exact Nat.pos_of_ne_zero fun empty => range.atCharacter (String.length_eq_zero_iff.mp empty)
  obtain ⟨extent, placed, start⟩ : ∃ extent,
      Extent.ofSpan? (.ofString source) ⟨before.length, before.length + inside.length⟩ = some extent ∧
        extent.start = Text.place endsLine source.toList before.length :=
    start_of_ofSpan? (by simp only; omega) (by simp only; omega)
  refine ⟨framed (.ofString source) extent report, ?_, by rw [framed, start]⟩
  have ascends : ¬report.span.stop < report.span.start := by
    rw [range.start, range.stop]
    omega
  simp only [renderer, print, if_neg ascends, counted, startsAt, stopsAt, placed]

end TypedMatch.Terminal
