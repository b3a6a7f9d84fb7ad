import TypedMatch.Ty.Basic

/-!
# Fields

A record keeps its fields in ascending order of their labels, and each label once: a field that is
given again replaces the earlier one.  Labels are ordered by their characters' code points.
-/

set_option autoImplicit false

namespace TypedMatch.Fields

variable {Value : Type}

/-- The fields with one more, in its place by label or instead of the field of that label. -/
def insert (label : String) (value : Value) : List (String × Value) → List (String × Value)
  | [] => [(label, value)]
  | (first, old) :: rest =>
      if label < first then (label, value) :: (first, old) :: rest
      else if label = first then (label, value) :: rest
      else (first, old) :: insert label value rest

/-- Fields in the order in which a program gives them, brought into the order of a record. -/
def ofList (fields : List (String × Value)) : List (String × Value) :=
  fields.foldl (fun sorted field => insert field.1 field.2 sorted) []

end TypedMatch.Fields
