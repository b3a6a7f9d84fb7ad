import TypedMatch.Declaration.Environment

/-!
# Declarations

The variants and aliases declared so far.  A declaration first mints the identity and the parameters
of its type.  A variant then gets its constructors one by one, and their payloads may mention its
parameters.  The name of a constructor may be used again in another type, and then it belongs to the
type that got it last.
-/

set_option autoImplicit false

namespace TypedMatch

inductive DeclarationError where
  | undeclared (name : String)
  | constructorTaken (name owner : String)
  | noVariant (name : String)
  | noAlias (name : String)
  | wrongArity (name : String) (expected found : Nat)
deriving DecidableEq, Repr, Inhabited

def DeclarationError.message : DeclarationError → String
  | undeclared name => "unknown type `" ++ name ++ "`"
  | constructorTaken name owner =>
      "constructor `" ++ name ++ "` is already defined by type `" ++ owner ++ "`"
  | noVariant name => "type `" ++ name ++ "` is not a variant type"
  | noAlias name => "type `" ++ name ++ "` is not an alias"
  | wrongArity name expected found =>
      "type `" ++ name ++ "` expects " ++ toString expected ++ " type argument(s), got "
        ++ toString found

structure Declared where
  con : TyCon
  params : List BoundVar
deriving DecidableEq, Repr, Inhabited

namespace Declared

def varAt (declared : Declared) (index : Nat) : Except Fault BoundVar :=
  match declared.params[index]? with
  | some var => .ok var
  | none => .error (.noParameter declared.params.length index)

def paramAt (declared : Declared) (index : Nat) : Except Fault (Ty SchemeVar) := do
  return .var (.bound (← declared.varAt index))

end Declared

def Store.newDeclared (store : Store) (name : String) (arity : Nat) : Declared × Store :=
  let (con, named) := store.newCon name
  let (params, grown) := named.newBounds arity
  (⟨con, params⟩, grown)

inductive Declaration where
  /-- A variant with its constructors and their payloads, in the order in which it got them. -/
  | variant (params : List BoundVar) (constructors : List (String × Ty SchemeVar))
  | aliasOf (template : Template)
deriving Repr, Inhabited

def Declaration.body? : Declaration → Option Template
  | variant _ _ => none
  | aliasOf template => some template

/-- The declared types by their number, and the last type that got a constructor by its name. -/
structure Declarations where
  types : Table Nat Declaration
  owners : Table String TyCon
deriving Repr, Inhabited

namespace Declarations

def empty : Declarations := ⟨.empty, .empty⟩

def get? (declarations : Declarations) (con : TyCon) : Option Declaration :=
  declarations.types.get? con.number

def set (declarations : Declarations) (con : TyCon) (declaration : Declaration) : Declarations :=
  { declarations with types := declarations.types.set con.number declaration }

/-! ## Declaring -/

def addVariant (declarations : Declarations) (store : Store) (name : String) (arity : Nat) :
    Declared × Declarations × Store :=
  let (declared, grown) := store.newDeclared name arity
  (declared, declarations.set declared.con (.variant declared.params []), grown)

/-- Declare an alias, whose body may mention its parameters.  The declaration fails as the body
does. -/
def addAlias {Error : Type} (declarations : Declarations) (store : Store) (name : String)
    (arity : Nat) (body : Declared → Except Error (Ty SchemeVar)) :
    Except Error (Declared × Declarations × Store) := do
  let (declared, grown) := store.newDeclared name arity
  let template : Template := ⟨declared.params, ← body declared⟩
  return (declared, declarations.set declared.con (.aliasOf template), grown)

/-- Give a variant one more constructor.  No variant has two constructors of one name. -/
def extend (declarations : Declarations) (con : TyCon) (name : String) (payload : Ty SchemeVar) :
    Except DeclarationError Declarations :=
  match declarations.get? con with
  | some (.variant params constructors) =>
      if name ∈ constructors.map (·.1) then
        .error (.constructorTaken name con.name)
      else
        let extended := declarations.set con (.variant params (constructors ++ [(name, payload)]))
        .ok { extended with owners := extended.owners.set name con }
  | some (.aliasOf _) => .error (.noVariant con.name)
  | none => .error (.undeclared con.name)

/-! ## Asking -/

/-- The type that got a constructor of this name last. -/
def owner? (declarations : Declarations) (name : String) : Option TyCon :=
  declarations.owners.get? name

def body? (declarations : Declarations) (con : TyCon) : Option Template :=
  (declarations.get? con).bind Declaration.body?

def abbreviates (declarations : Declarations) (con : TyCon) : Bool :=
  (declarations.body? con).isSome

def constructors? (declarations : Declarations) (con : TyCon) : Option (List Constructor) :=
  match declarations.get? con with
  | some (.variant params constructors) =>
      some (constructors.map fun entry => ⟨entry.1, ⟨params, entry.2⟩⟩)
  | _ => none

/-! ## Applying -/

def requireArity (con : TyCon) (params : List BoundVar) (args : List (Ty MetaVar)) :
    Except DeclarationError Unit :=
  if params.length = args.length then .ok ()
  else .error (.wrongArity con.name params.length args.length)

def applyVariant (declarations : Declarations) (con : TyCon) (args : List (Ty MetaVar)) :
    Except DeclarationError (Ty MetaVar) :=
  match declarations.get? con with
  | some (.variant params _) => do
      requireArity con params args
      return .data con args
  | some (.aliasOf _) => .error (.noVariant con.name)
  | none => .error (.undeclared con.name)

def applyAlias (declarations : Declarations) (store : Store) (level : Level) (con : TyCon)
    (args : List (Ty MetaVar)) : Except DeclarationError (Ty MetaVar × Store) :=
  match declarations.get? con with
  | some (.aliasOf template) => do
      requireArity con template.params args
      let (expansion, grown) := store.fill level .allowed template args
      return (.synonym con args expansion, grown)
  | some (.variant _ _) => .error (.noAlias con.name)
  | none => .error (.undeclared con.name)

/-- What an alias applied to arguments stands for, or nothing if the type is not an alias. -/
def standsFor? (declarations : Declarations) (store : Store) (level : Level)
    (quantification : Quantification) (con : TyCon) (args : List (Ty MetaVar)) :
    Except Fault (Option (Ty MetaVar × Store)) :=
  match declarations.body? con with
  | some template => (store.apply level quantification template args).map some
  | none => .ok none

/-! ## As an environment -/

def bodies (declarations : Declarations) : List Template :=
  declarations.types.entries.filterMap fun entry => entry.2.body?

theorem mem_bodies {declarations : Declarations} {con : TyCon} {template : Template}
    (found : declarations.body? con = some template) : template ∈ declarations.bodies := by
  obtain ⟨declaration, stored, isBody⟩ := Option.bind_eq_some_iff.mp found
  obtain ⟨before, after, split, _⟩ := List.lookup_eq_some_iff.mp stored
  exact List.mem_filterMap.mpr ⟨(con.number, declaration), by simp [split], isBody⟩

def toEnvironment (declarations : Declarations) : Environment where
  constructors? := declarations.constructors?
  abbreviates := declarations.abbreviates
  body? := declarations.body?
  bodies := declarations.bodies
  body?_mem := mem_bodies

end Declarations

end TypedMatch
