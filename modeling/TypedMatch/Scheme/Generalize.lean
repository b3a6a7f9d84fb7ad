import TypedMatch.Store.Links
import TypedMatch.Walk

/-!
# Generalisation

Generalising a type at a level makes a scheme that owns the variables created strictly deeper than
that level.  The kind of an owned variable may reach further variables, and those are owned as well
where they are deep enough.  Owned variables are numbered in the order in which a walk enters them,
a variable before the variables of its kind, and listed in the order in which the walk finishes
them, a variable after the variables of its kind.
-/

set_option autoImplicit false

namespace TypedMatch

/-- Whether a variable is owned by a scheme made at the given level. -/
def FreeVar.generalizesAt (level : Level) (record : FreeVar) : Bool :=
  record.quantification == .allowed && decide (level < record.level)

namespace Store

def chosen? (store : Store) (choose : FreeVar → Bool) (var : MetaVar) : Option FreeVar :=
  match store.cells.get? var with
  | some (.free record) => if choose record then some record else none
  | _ => none

/-- The walk through the variables of a type, and on through the kinds of the chosen ones. -/
def reach (store : Store) (choose : FreeVar → Bool) (type : Ty MetaVar) : Trail MetaVar :=
  let next (var : MetaVar) : List MetaVar :=
    match store.chosen? choose var with
    | some record => (store.zonkKind record.kind).leaves
    | none => []
  Trail.walk next (store.cells.size + 1) (store.zonk type).leaves

def close (store : Store) (choose : FreeVar → Bool) (type : Ty MetaVar) :
    Except Fault (Scheme × Store) := do
  let trail := store.reach choose type
  store.settle trail.entered
  let owned := trail.entered.filter fun var => (store.chosen? choose var).isSome
  let rename (var : MetaVar) : SchemeVar :=
    if var ∈ owned then .bound ⟨store.nextBound + owned.idxOf var⟩ else .free var
  let quantified := trail.finished.filterMap fun var =>
    (store.chosen? choose var).map fun record =>
      { var := ⟨store.nextBound + owned.idxOf var⟩
        kind := (store.zonkKind record.kind).bind fun v => .var (rename v) : Quantified }
  return (⟨quantified, (store.zonk type).map rename⟩,
    { store with nextBound := store.nextBound + owned.length })

/-- The scheme of a type that owns the variables created strictly deeper than a level, as far as
they may be generalised. -/
def generalize (store : Store) (level : Level) (type : Ty MetaVar) :
    Except Fault (Scheme × Store) :=
  store.close (FreeVar.generalizesAt level) type

/-- The scheme of a type that owns every free variable.  It is meant for types that share no
variable with their surroundings. -/
def generalizeAll (store : Store) (type : Ty MetaVar) : Except Fault (Scheme × Store) :=
  store.close (fun _ => true) type

end Store

end TypedMatch
