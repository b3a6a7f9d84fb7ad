import TypedMatch.Scheme.Instantiate
import TypedMatch.Store.Links

/-!
# Environments

What a check of a match needs to know of the declared types: the constructors of a variant, which
types are aliases, and what an alias stands for.  `Environment.expand` looks through links, synonyms
and aliases at the root of a type.

An expansion that ends takes a bounded number of steps, which `Environment.budget` gives.  On its way
the root of the type moves through the nodes of the type, of what its variables are linked to, and of
the bodies of aliases.  An alias met in one body sets off a detour into another body, and the detours
that have not yet come back are all into different bodies, or the expansion would go round for ever.
So detours nest no deeper than there are aliases, and each of them meets every node at most once.
-/

set_option autoImplicit false

namespace TypedMatch

/-- A constructor of a variant, with its payload over the parameters of the variant. -/
structure Constructor where
  name : String
  payload : Template
deriving Repr, Inhabited

/-- The declared types, as far as a check asks about them. -/
structure Environment where
  /-- The constructors of a variant in the order of declaration, or nothing for other types. -/
  constructors? : TyCon → Option (List Constructor)
  /-- Whether a type stands for another one. -/
  abbreviates : TyCon → Bool
  body? : TyCon → Option Template
  bodies : List Template
  body?_mem : ∀ {con : TyCon} {template : Template},
    body? con = some template → template ∈ bodies

namespace Environment

def budget (env : Environment) (store : Store) (type : Ty MetaVar) : Nat :=
  let bodies := env.bodies.foldr (fun template total => template.body.size + total) 0
  let base := 1 + type.size + store.cells.size * store.linkedSize + bodies
  base.pow (env.bodies.length + 1)

def aliasAt? {Var : Type} (env : Environment) : Ty Var → Option (TyCon × List (Ty Var))
  | .data con args => if env.abbreviates con then some (con, args) else none
  | _ => none

/-- Look through links, synonyms and at most `fuel` aliases at the root of a type. -/
def expandWithin (env : Environment) (level : Level) :
    Nat → Store → Ty MetaVar → Except Fault (Ty MetaVar × Store)
  | fuel, store, type => do
      let root ← store.unfold type
      match env.aliasAt? root with
      | none => return (root, store)
      | some (con, args) =>
          match env.body? con with
          | none => throw (.undefinedAlias con)
          | some template =>
              match fuel with
              | 0 => throw .endless
              | fuel + 1 => do
                  let (body, grown) ← store.apply level .allowed template args
                  env.expandWithin level fuel grown body

/-- The type that is no link, no synonym and no alias at its root and that the given one stands
for.  The store grows by the variables that the bodies of aliases need. -/
def expand (env : Environment) (level : Level) (store : Store) (type : Ty MetaVar) :
    Except Fault (Ty MetaVar × Store) := do
  let root ← store.unfold type
  match env.aliasAt? root with
  | none => return (root, store)
  | some _ => env.expandWithin level (env.budget store root) store root

end Environment

end TypedMatch
