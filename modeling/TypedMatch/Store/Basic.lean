import TypedMatch.Table
import TypedMatch.Ty.Basic

/-!
# The store of type variables

A type mentions a variable only by its identity; what has become of the variable is written in its
cell.  Several places of several types may mention one variable, and all of them see one cell: that
is how types share.  The statements below say what every operation does to the cells.

The store also mints identities, each space with a counter of its own.  Counters are natural numbers here and
never run out.  A program that counts with 32 bits stops for good when one of its counters is exhausted, so
everything that it does up to then is done here as well; only that an identity can always be minted is more
than such a program promises, and there is no `Fault` for it.
-/

set_option autoImplicit false

namespace TypedMatch

structure FreeVar where
  var : MetaVar
  kind : Kind MetaVar
  quantification : Quantification
  level : Level
deriving Repr, Inhabited

inductive Cell where
  | free (record : FreeVar)
  /-- The variable has been found to be this type. -/
  | linked (target : Ty MetaVar)
deriving Repr, Inhabited

/-- The cells of all variables, and the next number of every space of identities. -/
structure Store where
  nextCon : Nat
  nextVar : Nat
  nextBound : Nat
  cells : Table MetaVar Cell
deriving Repr, Inhabited

namespace Store

def empty : Store := ⟨0, 0, 0, .empty⟩

def newCon (store : Store) (name : String) : TyCon × Store :=
  (⟨store.nextCon, name⟩, { store with nextCon := store.nextCon + 1 })

def newBound (store : Store) : BoundVar × Store :=
  (⟨store.nextBound⟩, { store with nextBound := store.nextBound + 1 })

def newBounds (store : Store) (count : Nat) : List BoundVar × Store :=
  ((List.range count).map fun index => ⟨store.nextBound + index⟩,
    { store with nextBound := store.nextBound + count })

def newVar (store : Store) (kind : Kind MetaVar) (quantification : Quantification)
    (level : Level) : MetaVar × Store :=
  let var : MetaVar := ⟨store.nextVar⟩
  (var,
    { store with
      nextVar := store.nextVar + 1
      cells := store.cells.set var (.free ⟨var, kind, quantification, level⟩) })

def cell (store : Store) (var : MetaVar) : Except Fault Cell :=
  match store.cells.get? var with
  | some cell => .ok cell
  | none => .error (.unknownVar var)

def free? (store : Store) (var : MetaVar) : Except Fault (Option FreeVar) :=
  match store.cells.get? var with
  | some (.free record) => .ok (some record)
  | some (.linked _) => .ok none
  | none => .error (.unknownVar var)

/-- The store in which a free variable has another kind.  Other variables have none to change. -/
def constrain (store : Store) (var : MetaVar) (kind : Kind MetaVar) : Store :=
  match store.cells.get? var with
  | some (.free record) =>
      { store with cells := store.cells.set var (.free { record with kind }) }
  | _ => store

/-- The store in which a variable is linked to a type.  Nothing is checked: neither that the
variable does not occur in the type, nor that the type has its kind. -/
def link (store : Store) (var : MetaVar) (target : Ty MetaVar) : Store :=
  { store with cells := store.cells.set var (.linked target) }

theorem get?_cells_newVar (store : Store) (kind : Kind MetaVar)
    (quantification : Quantification) (level : Level) (var : MetaVar) :
    (store.newVar kind quantification level).2.cells.get? var =
      if var = ⟨store.nextVar⟩ then some (.free ⟨⟨store.nextVar⟩, kind, quantification, level⟩)
      else store.cells.get? var := by
  simp [newVar, Table.get?_set]

theorem get?_cells_link (store : Store) (linked var : MetaVar) (target : Ty MetaVar) :
    (store.link linked target).cells.get? var =
      if var = linked then some (.linked target) else store.cells.get? var := by
  simp [link, Table.get?_set]

end Store

end TypedMatch
