import TypedMatch.Fault

/-!
# Types

A type is a tree whose variables are leaves of a kind of their own: metavariables in the types that
inference works with, bound and still free variables in the body of a scheme.  Everything that looks
at a type does so through a few traversals.  `Ty.bind` puts a type in the place of every variable,
`Ty.leaves` lists the variables from left to right, and `Ty.same` compares two types, with declared
types compared by number alone.
-/

set_option autoImplicit false

namespace TypedMatch

inductive BaseTy where
  | unit
  | bool
  | int
  | float
  | length
  | string
  | inlineText
  | blockText
  | mathText
  | inlineBoxes
  | blockBoxes
  | context
  | prePath
  | path
  | graphics
  | image
  | document
  | regexp
  | textInfo
  | inputPosition
deriving DecidableEq, Repr, Inhabited

def BaseTy.text : BaseTy → String
  | unit => "unit"
  | bool => "bool"
  | int => "int"
  | float => "float"
  | length => "length"
  | string => "string"
  | inlineText => "inline-text"
  | blockText => "block-text"
  | mathText => "math"
  | inlineBoxes => "inline-boxes"
  | blockBoxes => "block-boxes"
  | context => "context"
  | prePath => "pre-path"
  | path => "path"
  | graphics => "graphics"
  | image => "image"
  | document => "document"
  | regexp => "regexp"
  | textInfo => "text-info"
  | inputPosition => "input-position"

inductive CommandMode where
  | inline
  | block
  | math
deriving DecidableEq, Repr, Inhabited

inductive ArgMode where
  | mandatory
  | optional
deriving DecidableEq, Repr, Inhabited

inductive Ty (Var : Type) where
  | base (base : BaseTy)
  | var (var : Var)
  /-- A function with its optional arguments, its argument and its result. -/
  | arrow (optional : List (Ty Var)) (domain codomain : Ty Var)
  | list (element : Ty Var)
  | ref (content : Ty Var)
  /-- A product, of two components or more where it comes from a program. -/
  | product (components : List (Ty Var))
  | data (con : TyCon) (args : List (Ty Var))
  /-- An alias applied to arguments, together with the type it stands for. -/
  | synonym (con : TyCon) (args : List (Ty Var)) (expansion : Ty Var)
  /-- A record, its fields in ascending order of their labels. -/
  | record (fields : List (String × Ty Var))
  | command (mode : CommandMode) (args : List (ArgMode × Ty Var))
deriving Repr, Inhabited

/-- What a type variable may stand for. -/
inductive Kind (Var : Type) where
  | any
  /-- A record with at least these fields, in ascending order of their labels. -/
  | record (fields : List (String × Ty Var))
deriving Repr, Inhabited

namespace Ty

variable {Var NewVar : Type}

def unit : Ty Var := .base .unit

def ofComponents (components : List (Ty Var)) : Except Fault (Ty Var) :=
  if components.length < 2 then .error .shortProduct else .ok (.product components)

def bare : Ty Var → Ty Var
  | synonym _ _ expansion => expansion.bare
  | type => type

/-! ## Substitution -/

mutual

/-- The type in which every variable gives way to the type chosen for it. -/
def bind (replace : Var → Ty NewVar) : Ty Var → Ty NewVar
  | base b => .base b
  | var v => replace v
  | arrow optional domain codomain =>
      .arrow (bindList replace optional) (domain.bind replace) (codomain.bind replace)
  | list element => .list (element.bind replace)
  | ref content => .ref (content.bind replace)
  | product components => .product (bindList replace components)
  | data con args => .data con (bindList replace args)
  | synonym con args expansion =>
      .synonym con (bindList replace args) (expansion.bind replace)
  | record fields => .record (bindFields replace fields)
  | command mode args => .command mode (bindArgs replace args)

def bindList (replace : Var → Ty NewVar) : List (Ty Var) → List (Ty NewVar)
  | [] => []
  | type :: rest => type.bind replace :: bindList replace rest

def bindFields (replace : Var → Ty NewVar) : List (String × Ty Var) → List (String × Ty NewVar)
  | [] => []
  | (label, type) :: rest => (label, type.bind replace) :: bindFields replace rest

def bindArgs (replace : Var → Ty NewVar) : List (ArgMode × Ty Var) → List (ArgMode × Ty NewVar)
  | [] => []
  | (mode, type) :: rest => (mode, type.bind replace) :: bindArgs replace rest

end

def map (rename : Var → NewVar) (type : Ty Var) : Ty NewVar :=
  type.bind fun v => .var (rename v)

/-! ## Variables -/

mutual

def leaves : Ty Var → List Var
  | base _ => []
  | var v => [v]
  | arrow optional domain codomain => leavesList optional ++ domain.leaves ++ codomain.leaves
  | list element => element.leaves
  | ref content => content.leaves
  | product components => leavesList components
  | data _ args => leavesList args
  | synonym _ args expansion => leavesList args ++ expansion.leaves
  | record fields => leavesFields fields
  | command _ args => leavesArgs args

def leavesList : List (Ty Var) → List Var
  | [] => []
  | type :: rest => type.leaves ++ leavesList rest

def leavesFields : List (String × Ty Var) → List Var
  | [] => []
  | (_, type) :: rest => type.leaves ++ leavesFields rest

def leavesArgs : List (ArgMode × Ty Var) → List Var
  | [] => []
  | (_, type) :: rest => type.leaves ++ leavesArgs rest

end

/-! ## Size -/

mutual

def size : Ty Var → Nat
  | base _ => 1
  | var _ => 1
  | arrow optional domain codomain => 1 + sizeList optional + domain.size + codomain.size
  | list element => 1 + element.size
  | ref content => 1 + content.size
  | product components => 1 + sizeList components
  | data _ args => 1 + sizeList args
  | synonym _ args expansion => 1 + sizeList args + expansion.size
  | record fields => 1 + sizeFields fields
  | command _ args => 1 + sizeArgs args

def sizeList : List (Ty Var) → Nat
  | [] => 0
  | type :: rest => type.size + sizeList rest

def sizeFields : List (String × Ty Var) → Nat
  | [] => 0
  | (_, type) :: rest => type.size + sizeFields rest

def sizeArgs : List (ArgMode × Ty Var) → Nat
  | [] => 0
  | (_, type) :: rest => type.size + sizeArgs rest

end

/-! ## Comparison -/

section Same

variable [BEq Var]

mutual

/-- Whether two types are the same tree, with declared types compared by number. -/
def same : Ty Var → Ty Var → Bool
  | base left, base right => left == right
  | var left, var right => left == right
  | arrow optional domain codomain, arrow optional' domain' codomain' =>
      sameList optional optional' && domain.same domain' && codomain.same codomain'
  | list element, list element' => element.same element'
  | ref content, ref content' => content.same content'
  | product components, product components' => sameList components components'
  | data con args, data con' args' => con.same con' && sameList args args'
  | synonym con args expansion, synonym con' args' expansion' =>
      con.same con' && sameList args args' && expansion.same expansion'
  | record fields, record fields' => sameFields fields fields'
  | command mode args, command mode' args' => mode == mode' && sameArgs args args'
  | _, _ => false
termination_by structural left => left

def sameList : List (Ty Var) → List (Ty Var) → Bool
  | [], [] => true
  | type :: rest, type' :: rest' => type.same type' && sameList rest rest'
  | _, _ => false

def sameFields : List (String × Ty Var) → List (String × Ty Var) → Bool
  | [], [] => true
  | (label, type) :: rest, (label', type') :: rest' =>
      label == label' && type.same type' && sameFields rest rest'
  | _, _ => false

def sameArgs : List (ArgMode × Ty Var) → List (ArgMode × Ty Var) → Bool
  | [], [] => true
  | (mode, type) :: rest, (mode', type') :: rest' =>
      mode == mode' && type.same type' && sameArgs rest rest'
  | _, _ => false

end

end Same

end Ty

namespace Kind

variable {Var NewVar : Type}

def bind (replace : Var → Ty NewVar) : Kind Var → Kind NewVar
  | any => .any
  | record fields => .record (Ty.bindFields replace fields)

def leaves : Kind Var → List Var
  | any => []
  | record fields => Ty.leavesFields fields

def same [BEq Var] : Kind Var → Kind Var → Bool
  | any, any => true
  | record fields, record fields' => Ty.sameFields fields fields'
  | _, _ => false

end Kind

end TypedMatch
