import TypedMatch.Coverage.Head

/-!
# Rows

A row is a branch that is still in question, with one shape for every slot.  Taking the first slot
apart by a head keeps the rows that allow for the head, and puts what they demand of the parts in
front of their other shapes.  The main statement, `openNodes_keptRows_lt`, says that this always
leaves less to ask for, as long as some row asks something of the first slot.
-/

set_option autoImplicit false

namespace TypedMatch

variable {Var : Type}

/-- A branch that is still in question: its shapes for the slots, and where it came from. -/
structure Row where
  shapes : List Shape
  branch : Nat
  guarded : Bool
deriving Repr, Inhabited

namespace Row

def ofBranches : Nat → List Branch → Except Fault (List Row)
  | _, [] => .ok []
  | index, branch :: rest => do
      let shape ← Shape.ofPattern branch.pattern
      let rows ← ofBranches (index + 1) rest
      return ⟨[shape], index, branch.guarded⟩ :: rows

def skips (row : Row) : Bool :=
  match row.shapes with
  | [] => true
  | first :: _ => first.isBlank

def tail (row : Row) : Row := { row with shapes := row.shapes.tail }

/-- The row once its first slot is known to have a head, or nothing if the row does not allow for
that head. -/
def under (head : Head Var) (row : Row) : Option Row :=
  match row.shapes with
  | [] => none
  | first :: rest =>
      (head.demands first).map fun parts => { row with shapes := parts ++ rest }

def nodes (row : Row) : Nat := Shape.nodesList row.shapes

theorem nodes_under_le {head : Head Var} {row kept : Row} (keeps : row.under head = some kept) :
    kept.nodes ≤ row.nodes := by
  obtain ⟨shapes, branch, guarded⟩ := row
  cases shapes with
  | nil => cases keeps
  | cons first rest =>
      obtain ⟨parts, demanded, rfl⟩ := Option.map_eq_some_iff.mp keeps
      have bound := Head.nodesList_demands_le demanded
      simp only [nodes, Shape.nodesList_append, Shape.nodesList]
      omega

theorem nodes_under_lt {head : Head Var} {row kept : Row} (asks : row.skips = false)
    (keeps : row.under head = some kept) : kept.nodes < row.nodes := by
  obtain ⟨shapes, branch, guarded⟩ := row
  cases shapes with
  | nil => cases keeps
  | cons first rest =>
      obtain ⟨parts, demanded, rfl⟩ := Option.map_eq_some_iff.mp keeps
      have bound := Head.nodesList_demands_lt demanded asks
      simp only [nodes, Shape.nodesList_append, Shape.nodesList]
      omega

theorem nodes_pos {row : Row} (asks : row.skips = false) : 0 < row.nodes := by
  obtain ⟨shapes, branch, guarded⟩ := row
  cases shapes with
  | nil => cases asks
  | cons first rest =>
      have positive := Shape.nodes_pos asks
      simp only [nodes, Shape.nodesList]
      omega

theorem nodes_tail {row : Row} (skips : row.skips) : row.tail.nodes = row.nodes := by
  obtain ⟨shapes, branch, guarded⟩ := row
  cases shapes with
  | nil => rfl
  | cons first rest =>
      have blank := Shape.nodes_eq_zero_of_isBlank skips
      simp only [nodes, tail, List.tail_cons, Shape.nodesList]
      omega

end Row

/-! ## Rows together -/

def openNodes : List Row → Nat
  | [] => 0
  | row :: rows => row.nodes + openNodes rows

def keptRows (head : Head Var) (rows : List Row) : List Row := rows.filterMap (Row.under head)

def column (rows : List Row) : List Shape := rows.filterMap fun row => row.shapes.head?

theorem openNodes_cons (row : Row) (rows : List Row) :
    openNodes (row :: rows) = row.nodes + openNodes rows :=
  rfl

theorem openNodes_map_tail {rows : List Row} (skips : rows.all Row.skips) :
    openNodes (rows.map Row.tail) = openNodes rows := by
  induction rows with
  | nil => rfl
  | cons row rest inductionHypothesis =>
      simp only [List.all_cons, Bool.and_eq_true] at skips
      rw [List.map_cons, openNodes_cons, openNodes_cons, Row.nodes_tail skips.1,
        inductionHypothesis skips.2]

theorem keptRows_cons (head : Head Var) (row : Row) (rows : List Row) :
    keptRows head (row :: rows) = (row.under head).toList ++ keptRows head rows := by
  cases keeps : row.under head <;> simp [keptRows, keeps]

theorem openNodes_keptRows_le (head : Head Var) (rows : List Row) :
    openNodes (keptRows head rows) ≤ openNodes rows := by
  induction rows with
  | nil => exact Nat.le_refl _
  | cons row rest inductionHypothesis =>
      rw [keptRows_cons, openNodes_cons]
      cases keeps : row.under head with
      | none =>
          simp only [Option.toList_none, List.nil_append]
          omega
      | some kept =>
          have bound := Row.nodes_under_le keeps
          simp only [Option.toList_some, List.singleton_append, openNodes_cons]
          omega

theorem openNodes_keptRows_lt (head : Head Var) {rows : List Row}
    (asks : rows.all Row.skips = false) :
    openNodes (keptRows head rows) < openNodes rows := by
  induction rows with
  | nil => cases asks
  | cons row rest inductionHypothesis =>
      have restBound := openNodes_keptRows_le head rest
      rw [keptRows_cons, openNodes_cons]
      cases skips : row.skips with
      | true =>
          have restAsks : rest.all Row.skips = false := by simpa [skips] using asks
          have restLess := inductionHypothesis restAsks
          cases keeps : row.under head with
          | none =>
              simp only [Option.toList_none, List.nil_append]
              omega
          | some kept =>
              have bound := Row.nodes_under_le keeps
              simp only [Option.toList_some, List.singleton_append, openNodes_cons]
              omega
      | false =>
          have positive := Row.nodes_pos skips
          cases keeps : row.under head with
          | none =>
              simp only [Option.toList_none, List.nil_append]
              omega
          | some kept =>
              have bound := Row.nodes_under_lt skips keeps
              simp only [Option.toList_some, List.singleton_append, openNodes_cons]
              omega

end TypedMatch
