/-!
# Identities

Type constructors, metavariables and bound variables are numbered in three separate spaces.  A
declared type also carries its name, which is only ever printed: two declarations of one name stay
two types, because identity is a matter of the number alone.
-/

set_option autoImplicit false

namespace TypedMatch

/-- A type variable that unification may still solve.  It is the key of a cell in a store. -/
structure MetaVar where
  number : Nat
deriving DecidableEq, Repr, Inhabited

/-- A type variable owned by a scheme. -/
structure BoundVar where
  number : Nat
deriving DecidableEq, Repr, Inhabited

/-- A declared type: its number decides what it is, its name how it is printed. -/
structure TyCon where
  number : Nat
  name : String
deriving DecidableEq, Repr, Inhabited

def TyCon.same (left right : TyCon) : Bool :=
  left.number == right.number

/-- How many scopes enclose the place where a type variable was created. -/
structure Level where
  depth : Nat
deriving DecidableEq, Repr, Inhabited

namespace Level

def bottom : Level := ⟨0⟩

def succ (level : Level) : Level := ⟨level.depth + 1⟩

instance : LT Level := ⟨fun outer inner => outer.depth < inner.depth⟩

instance (outer inner : Level) : Decidable (outer < inner) :=
  inferInstanceAs (Decidable (outer.depth < inner.depth))

def text (level : Level) : String := "L" ++ toString level.depth

end Level

/-- Whether a free variable may ever be generalised.  The content of mutable storage may not. -/
inductive Quantification where
  | allowed
  | forbidden
deriving DecidableEq, Repr, Inhabited

end TypedMatch
