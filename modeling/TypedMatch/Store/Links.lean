import TypedMatch.Store.Basic
import TypedMatch.Scheme.Basic

/-!
# Following links

A link says what a variable has been found to be, and the type at its end may mention linked
variables again.  `Store.follow` follows links at the root of a type, `Store.unfold` looks through
synonyms on the way, and `Store.zonk` follows every link anywhere in a type.  Where links do not
lead back to themselves no variable is met twice on one path, so the number of cells bounds every
path; the bounded forms below stop at that depth.
-/

set_option autoImplicit false

namespace TypedMatch.Store

def followWithin (store : Store) : Nat → Ty MetaVar → Except Fault (Ty MetaVar)
  | fuel, .var v =>
      match store.cells.get? v with
      | none => .error (.unknownVar v)
      | some (.free _) => .ok (.var v)
      | some (.linked target) =>
          match fuel with
          | 0 => .error .endless
          | fuel + 1 => store.followWithin fuel target
  | _, type => .ok type

def follow (store : Store) (type : Ty MetaVar) : Except Fault (Ty MetaVar) :=
  store.followWithin store.cells.size type

def unfoldWithin (store : Store) (fuel : Nat) (type : Ty MetaVar) : Except Fault (Ty MetaVar) :=
  match type.bare with
  | .var v =>
      match store.cells.get? v with
      | none => .error (.unknownVar v)
      | some (.free _) => .ok (.var v)
      | some (.linked target) =>
          match fuel with
          | 0 => .error .endless
          | fuel + 1 => store.unfoldWithin fuel target
  | bare => .ok bare

def unfold (store : Store) (type : Ty MetaVar) : Except Fault (Ty MetaVar) :=
  store.unfoldWithin store.cells.size type

/-- What a variable stands for once links are followed everywhere, to a depth of `fuel` links.  A
variable without a cell stands for itself. -/
def zonkVar (store : Store) : Nat → MetaVar → Ty MetaVar
  | 0, v => .var v
  | fuel + 1, v =>
      match store.cells.get? v with
      | some (.linked target) => target.bind (store.zonkVar fuel)
      | _ => .var v

/-- What a variable stands for once links are followed everywhere. -/
def target (store : Store) (var : MetaVar) : Ty MetaVar :=
  store.zonkVar store.cells.size var

def zonk (store : Store) (type : Ty MetaVar) : Ty MetaVar :=
  type.bind store.target

def zonkKind (store : Store) (kind : Kind MetaVar) : Kind MetaVar :=
  kind.bind store.target

def zonkBody (store : Store) (body : Ty SchemeVar) : Ty SchemeVar :=
  body.bind fun
    | .free v => (store.target v).asBody
    | .bound v => .var (.bound v)

def linkSize : Cell → Nat
  | .linked target => target.size
  | .free _ => 0

def linkedSize (store : Store) : Nat :=
  store.cells.entries.foldr (fun entry total => linkSize entry.2 + total) 0

/-- What keeps a variable from being free at the end of all links: it has no cell, or its links lead
back to themselves. -/
def unsettled? (store : Store) (var : MetaVar) : Option Fault :=
  match store.cells.get? var with
  | none => some (.unknownVar var)
  | some (.free _) => none
  | some (.linked _) => some .endless

/-- Succeeds if all given variables are free, and otherwise reports the first that is not. -/
def settle (store : Store) (vars : List MetaVar) : Except Fault Unit :=
  match vars.findSome? store.unsettled? with
  | some fault => .error fault
  | none => .ok ()

end TypedMatch.Store
