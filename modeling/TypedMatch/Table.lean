/-!
# Finite tables

A table maps finitely many keys to values, each key to at most one.  Writing a key again replaces
its value.  The main statement is `get?_set`: a write is seen at its key and nowhere else.
-/

set_option autoImplicit false

namespace TypedMatch

/-- A finite map, written down as its list of entries. -/
structure Table (Key Value : Type) where
  entries : List (Key × Value)
deriving Repr, Inhabited

namespace Table

variable {Key Value : Type} [DecidableEq Key]

def empty : Table Key Value := ⟨[]⟩

def get? (table : Table Key Value) (key : Key) : Option Value :=
  table.entries.lookup key

def set (table : Table Key Value) (key : Key) (value : Value) : Table Key Value :=
  ⟨(key, value) :: table.entries.filter fun entry => entry.1 != key⟩

def size (table : Table Key Value) : Nat := table.entries.length

private theorem lookup_filter_ne (entries : List (Key × Value)) {written key : Key}
    (different : key ≠ written) :
    (entries.filter fun entry => entry.1 != written).lookup key = entries.lookup key := by
  induction entries with
  | nil => rfl
  | cons entry rest inductionHypothesis =>
      obtain ⟨stored, value⟩ := entry
      by_cases storedWritten : stored = written
      · subst storedWritten
        simpa [List.lookup_cons, beq_eq_false_iff_ne.mpr different] using inductionHypothesis
      · simp [List.lookup_cons, storedWritten, inductionHypothesis]

/-- A write is seen at its own key, and every other key keeps its value. -/
theorem get?_set (table : Table Key Value) (written key : Key) (value : Value) :
    (table.set written value).get? key = if key = written then some value else table.get? key := by
  by_cases same : key = written
  · simp [get?, set, same]
  · simp [get?, set, List.lookup_cons, beq_eq_false_iff_ne.mpr same, same, lookup_filter_ne]

end Table

end TypedMatch
