import TypedMatch.Scheme.Basic
import TypedMatch.Store.Basic
import TypedMatch.Walk

/-!
# Instantiation

Instantiating a scheme gives its body back as a type of the store, with one new free variable for
every variable the scheme owns.  Some owned variables may be given types instead.  The new variables
are created in the order in which a walk enters the owned ones, a variable before the variables of
its kind, and their kinds mention each other as the kinds in the scheme do.
-/

set_option autoImplicit false

namespace TypedMatch.Store

/-- The owned variables of a scheme that need a new variable, in the order of entering.  Those with
a given type need none, and what only their kinds mention is not looked at. -/
def pending (scheme : Scheme) (given : List (BoundVar × Ty MetaVar)) : List BoundVar :=
  let unfilled (vars : List SchemeVar) : List BoundVar :=
    (vars.filterMap SchemeVar.bound?).filter fun var => (given.lookup var).isNone
  let next (var : BoundVar) : List BoundVar := unfilled (scheme.kindOf var).leaves
  (Trail.walk next (scheme.quantified.length + 1) (unfilled scheme.body.leaves)).entered

/-- The type that an occurrence of a variable in a scheme becomes: a variable of the store stays, an
owned variable becomes the type given for it, and else the new variable at its position. -/
def instanceOf (store : Store) (pending : List BoundVar) (given : List (BoundVar × Ty MetaVar)) :
    SchemeVar → Ty MetaVar
  | .free v => .var v
  | .bound v =>
      match given.lookup v with
      | some type => type
      | none => .var ⟨store.nextVar + pending.idxOf v⟩

/-- The body of a scheme with the given types for some of its owned variables, and new free
variables of one level and quantification for the others. -/
def instantiateWith (store : Store) (level : Level) (quantification : Quantification)
    (given : List (BoundVar × Ty MetaVar)) (scheme : Scheme) : Ty MetaVar × Store :=
  let pending := pending scheme given
  let replace := store.instanceOf pending given
  (scheme.body.bind replace,
    pending.foldl
      (fun grown var =>
        (grown.newVar ((scheme.kindOf var).bind replace) quantification level).2)
      store)

def instantiate (store : Store) (level : Level) (quantification : Quantification)
    (scheme : Scheme) : Ty MetaVar × Store :=
  store.instantiateWith level quantification [] scheme

/-- Types for owned variables, one by one.  Of several types for one variable the last counts. -/
def pairUp {Arg : Type} (params : List BoundVar) (args : List Arg) : List (BoundVar × Arg) :=
  (params.zip args).reverse

def instantiateAt (store : Store) (level : Level) (quantification : Quantification)
    (params : List BoundVar) (args : List (Ty MetaVar)) (scheme : Scheme) :
    Except Fault (Ty MetaVar × Store) :=
  if params.length = args.length then
    .ok (store.instantiateWith level quantification (pairUp params args) scheme)
  else
    .error (.argumentCount params.length args.length)

def fill (store : Store) (level : Level) (quantification : Quantification)
    (template : Template) (args : List (Ty MetaVar)) : Ty MetaVar × Store :=
  store.instantiateWith level quantification (pairUp template.params args) template.scheme

def apply (store : Store) (level : Level) (quantification : Quantification)
    (template : Template) (args : List (Ty MetaVar)) : Except Fault (Ty MetaVar × Store) :=
  store.instantiateAt level quantification template.params args template.scheme

end TypedMatch.Store
