/-!
# Lines

A text is cut behind every character that ends a line, so that each line has its line break and no
character is lost.  What ends a line is for the caller to say; it may depend on what comes next.  A
character has its place by the line ends before it and by the characters since the last of them.
-/

set_option autoImplicit false

namespace TypedMatch.Text

/-- What ends a line: a test of characters, which is also shown the characters behind. -/
abbrev LineEnd := Char → List Char → Bool

def lines (ends : LineEnd) : List Char → List (List Char)
  | [] => []
  | first :: rest =>
      if ends first rest then [first] :: lines ends rest
      else
        match lines ends rest with
        | [] => [[first]]
        | line :: more => (first :: line) :: more

theorem flatten_lines (ends : LineEnd) (text : List Char) : (lines ends text).flatten = text := by
  induction text with
  | nil => rfl
  | cons first rest inductionHypothesis =>
      unfold lines
      split
      · simp only [List.flatten_cons, inductionHypothesis, List.singleton_append]
      · split
        · simp_all
        · simp_all

/-! ## Places -/

/-- A line and a column, both counted from zero. -/
structure Place where
  line : Nat
  column : Nat
deriving DecidableEq, Repr, Inhabited

def Place.after (ended : Bool) (place : Place) : Place :=
  if ended then ⟨place.line + 1, place.column⟩
  else if place.line = 0 then ⟨0, place.column + 1⟩
  else place

/-- The place of the character that has so many characters before it. -/
def place (ends : LineEnd) : List Char → Nat → Place
  | first :: rest, number + 1 => (place ends rest number).after (ends first rest)
  | _, _ => ⟨0, 0⟩

theorem Place.after_ne_zero (ended : Bool) (place : Place) : place.after ended ≠ ⟨0, 0⟩ := by
  unfold Place.after
  split
  · simp
  · split
    · simp
    · next later => exact fun same => later (congrArg Place.line same)

theorem Place.after_injective {ended : Bool} {place other : Place}
    (same : place.after ended = other.after ended) : place = other := by
  obtain ⟨line, column⟩ := place
  obtain ⟨otherLine, otherColumn⟩ := other
  cases ended with
  | true => simpa [Place.after] using same
  | false =>
      simp only [Place.after, Bool.false_eq_true, if_false] at same
      split at same <;> split at same <;> simp_all

/-- No two characters have the same place. -/
theorem place_injective {ends : LineEnd} {text : List Char} {number other : Nat}
    (within : number ≤ text.length) (otherWithin : other ≤ text.length)
    (same : place ends text number = place ends text other) : number = other := by
  induction text generalizing number other with
  | nil => simp_all
  | cons first rest inductionHypothesis =>
      cases number with
      | zero =>
          cases other with
          | zero => rfl
          | succ other => exact absurd same.symm (Place.after_ne_zero _ _)
      | succ number =>
          cases other with
          | zero => exact absurd same (Place.after_ne_zero _ _)
          | succ other =>
              rw [inductionHypothesis (Nat.le_of_succ_le_succ within)
                (Nat.le_of_succ_le_succ otherWithin) (Place.after_injective same)]

end TypedMatch.Text
