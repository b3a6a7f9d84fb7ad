import TypedMatch.Ty.Basic

/-!
# Schemes

A scheme is a type some of whose variables it owns.  The others stay with the store in which the
scheme was made, and change with it.  The kind of an owned variable may mention other owned variables
and even itself.  A template is the plain case in which the owned variables are parameters without
any constraint, as in the declaration of a type.
-/

set_option autoImplicit false

namespace TypedMatch

/-- A variable in the body of a scheme. -/
inductive SchemeVar where
  /-- A variable of the store, which the scheme does not own. -/
  | free (var : MetaVar)
  /-- A variable that the scheme owns. -/
  | bound (var : BoundVar)
deriving DecidableEq, Repr, Inhabited

def SchemeVar.free? : SchemeVar → Option MetaVar
  | free var => some var
  | bound _ => none

def SchemeVar.bound? : SchemeVar → Option BoundVar
  | free _ => none
  | bound var => some var

def Ty.asBody (type : Ty MetaVar) : Ty SchemeVar := type.map .free

/-- A variable owned by a scheme, and what it may stand for. -/
structure Quantified where
  var : BoundVar
  kind : Kind SchemeVar
deriving Repr, Inhabited

structure Scheme where
  quantified : List Quantified
  body : Ty SchemeVar
deriving Repr, Inhabited

namespace Scheme

def ofTy (type : Ty MetaVar) : Scheme := ⟨[], type.asBody⟩

def ownsNothing (scheme : Scheme) : Bool := scheme.quantified.isEmpty

def find? (scheme : Scheme) (var : BoundVar) : Option Quantified :=
  scheme.quantified.find? fun entry => entry.var == var

def kindOf (scheme : Scheme) (var : BoundVar) : Kind SchemeVar :=
  match scheme.find? var with
  | some entry => entry.kind
  | none => .any

def varAt (scheme : Scheme) (index : Nat) : Except Fault BoundVar :=
  match scheme.quantified[index]? with
  | some entry => .ok entry.var
  | none => .error (.noParameter scheme.quantified.length index)

/-- Whether two schemes own the same variables with the same kinds and have the same body. -/
def same (left right : Scheme) : Bool :=
  left.quantified.length == right.quantified.length
    && (left.quantified.zip right.quantified).all
      (fun entries => entries.1.var == entries.2.var && entries.1.kind.same entries.2.kind)
    && left.body.same right.body

end Scheme

structure Template where
  params : List BoundVar
  body : Ty SchemeVar
deriving Repr, Inhabited

def Template.scheme (template : Template) : Scheme :=
  ⟨template.params.map fun var => ⟨var, .any⟩, template.body⟩

end TypedMatch
