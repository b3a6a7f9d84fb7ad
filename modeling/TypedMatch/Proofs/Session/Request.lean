import TypedMatch.Coverage.Check
import TypedMatch.Declaration.Basic
import TypedMatch.Proofs.Declaration.Built
import TypedMatch.Proofs.Store.Issuing
import TypedMatch.Scheme.Generalize

/-!
# Sessions

A session is a store together with the declared types.  It answers requests one by one: to make variables,
types and schemes, to declare types, to check matches, and to read off what has become of variables.  A fault
ends it.
-/

set_option autoImplicit false

namespace TypedMatch

structure Session where
  store : Store
  declarations : Declarations

inductive Request where
  | newVar (kind : Kind MetaVar) (quantification : Quantification) (level : Level)
  | newBound
  | newCon (name : String)
  | constrain (var : MetaVar) (kind : Kind MetaVar)
  | link (var : MetaVar) (target : Ty MetaVar)
  | generalize (level : Level) (type : Ty MetaVar)
  | generalizeAll (type : Ty MetaVar)
  | instantiate (level : Level) (quantification : Quantification) (scheme : Scheme)
  | instantiateAt (level : Level) (quantification : Quantification) (params : List BoundVar)
      (args : List (Ty MetaVar)) (scheme : Scheme)
  | addVariant (name : String) (arity : Nat)
  /-- An alias, whose body is made when its parameters are known. -/
  | addAlias (name : String) (arity : Nat) (body : List BoundVar → Ty SchemeVar)
  | extend (con : TyCon) (name : String) (payload : Ty SchemeVar)
  | applyVariant (con : TyCon) (args : List (Ty MetaVar))
  | applyAlias (level : Level) (con : TyCon) (args : List (Ty MetaVar))
  | standsFor (level : Level) (quantification : Quantification) (con : TyCon)
      (args : List (Ty MetaVar))
  | constructors (con : TyCon)
  /-- The payload of a constructor for the given arguments. -/
  | build (level : Level) (quantification : Quantification) (constructor : Constructor)
      (args : List (Ty MetaVar))
  | check (level : Level) (subject : Match) (options : Options) (warnings : List Diagnostic)
  | cell (var : MetaVar)
  | free (var : MetaVar)
  | follow (type : Ty MetaVar)
  | unfold (type : Ty MetaVar)
  | typeText (type : Ty MetaVar)
  | schemeText (scheme : Scheme)

inductive Answer where
  | done
  /-- What was asked for does not exist. -/
  | nothing
  | refused (error : DeclarationError)
  | var (var : MetaVar)
  | bound (var : BoundVar)
  | con (con : TyCon)
  | declared (declared : Declared)
  | type (type : Ty MetaVar)
  | generalized (scheme : Scheme)
  | constructors (listed : List Constructor)
  | checked (verdict : Verdict) (warnings : List Diagnostic)
  | cell (cell : Cell)
  | free (record : FreeVar)
  | text (text : String)

def Request.Mentions (session : Session) : Request → MetaVar → Prop
  | newVar kind _ _, v => v ∈ kind.leaves
  | newBound, _ | newCon _, _ | addVariant _ _, _ | constructors _, _ => False
  -- Constraining a variable that nobody has minted does nothing.
  | constrain _ kind, v => v ∈ kind.leaves
  | link var target, v => v = var ∨ v ∈ target.leaves
  | generalize _ type, v | generalizeAll type, v => v ∈ type.leaves
  | instantiate _ _ scheme, v | schemeText scheme, v => scheme.Mentions (.free v)
  | instantiateAt _ _ _ args scheme, v => scheme.Mentions (.free v) ∨ ∃ arg ∈ args, v ∈ arg.leaves
  | addAlias name arity body, v =>
      .free v ∈ (body (session.store.newDeclared name arity).1.params).leaves
  | extend _ _ payload, v => .free v ∈ payload.leaves
  | applyVariant _ args, v | applyAlias _ _ args, v | standsFor _ _ _ args, v =>
      ∃ arg ∈ args, v ∈ arg.leaves
  | build _ _ constructor args, v => v ∈ constructor.payload.vars ∨ ∃ arg ∈ args, v ∈ arg.leaves
  | check _ subject _ _, v => v ∈ subject.scrutinee.leaves
  | cell var, v | free var, v => v = var
  | follow type, v | unfold type, v | typeText type, v => v ∈ type.leaves

def Answer.Mentions : Answer → MetaVar → Prop
  | var w, v => v = w
  | type made, v => v ∈ made.leaves
  | generalized scheme, v => scheme.Mentions (.free v)
  | constructors listed, v => ∃ constructor ∈ listed, v ∈ constructor.payload.vars
  | cell content, v => v ∈ content.leaves
  | free record, v => v = record.var ∨ v ∈ record.kind.leaves
  | done, _ | nothing, _ | refused _, _ | bound _, _ | con _, _ | declared _, _ | checked _ _, _
  | text _, _ => False

/-- The identities that an answer hands out for the first time. -/
def Answer.issued : Answer → Issued
  | var made => ⟨[made], [], []⟩
  | bound made => ⟨[], [made], []⟩
  | con made => ⟨[], [], [made]⟩
  | declared made => ⟨[], made.params, [made.con]⟩
  | generalized scheme => ⟨[], scheme.owned, []⟩
  | _ => .none

namespace Session

def perform (session : Session) : Request → Except Fault (Answer × Session)
  | .newVar kind quantification level =>
      let (var, store) := session.store.newVar kind quantification level
      .ok (.var var, { session with store })
  | .newBound =>
      let (var, store) := session.store.newBound
      .ok (.bound var, { session with store })
  | .newCon name =>
      let (con, store) := session.store.newCon name
      .ok (.con con, { session with store })
  | .constrain var kind => .ok (.done, { session with store := session.store.constrain var kind })
  | .link var target => .ok (.done, { session with store := session.store.link var target })
  | .generalize level type => do
      let (scheme, store) ← session.store.generalize level type
      return (.generalized scheme, { session with store })
  | .generalizeAll type => do
      let (scheme, store) ← session.store.generalizeAll type
      return (.generalized scheme, { session with store })
  | .instantiate level quantification scheme =>
      let (type, store) := session.store.instantiate level quantification scheme
      .ok (.type type, { session with store })
  | .instantiateAt level quantification params args scheme => do
      let (type, store) ← session.store.instantiateAt level quantification params args scheme
      return (.type type, { session with store })
  | .addVariant name arity =>
      let (declared, declarations, store) := session.declarations.addVariant session.store name arity
      .ok (.declared declared, ⟨store, declarations⟩)
  | .addAlias name arity body => do
      let (declared, declarations, store) ← session.declarations.addAlias session.store name arity
        fun declared => .ok (body declared.params)
      return (.declared declared, ⟨store, declarations⟩)
  | .extend con name payload =>
      match session.declarations.extend con name payload with
      | .ok declarations => .ok (.done, { session with declarations })
      | .error error => .ok (.refused error, session)
  | .applyVariant con args =>
      match session.declarations.applyVariant con args with
      | .ok type => .ok (.type type, session)
      | .error error => .ok (.refused error, session)
  | .applyAlias level con args =>
      match session.declarations.applyAlias session.store level con args with
      | .ok (type, store) => .ok (.type type, { session with store })
      | .error error => .ok (.refused error, session)
  | .standsFor level quantification con args => do
      match ← session.declarations.standsFor? session.store level quantification con args with
      | some (type, store) => return (.type type, { session with store })
      | none => return (.nothing, session)
  | .constructors con =>
      match session.declarations.constructors? con with
      | some listed => .ok (.constructors listed, session)
      | none => .ok (.nothing, session)
  | .build level quantification constructor args => do
      let (type, store) ← session.store.apply level quantification constructor.payload args
      return (.type type, { session with store })
  | .check level subject options warnings => do
      let (verdict, warnings, store) ←
        subject.warn session.declarations.toEnvironment level session.store options warnings
      return (.checked verdict warnings, { session with store })
  | .cell var => do
      let cell ← session.store.cell var
      return (.cell cell, session)
  | .free var => do
      match ← session.store.free? var with
      | some record => return (.free record, session)
      | none => return (.nothing, session)
  | .follow type => do
      let root ← session.store.follow type
      return (.type root, session)
  | .unfold type => do
      let root ← session.store.unfold type
      return (.type root, session)
  | .typeText type => do
      let text ← session.store.typeText type
      return (.text text, session)
  | .schemeText scheme => do
      let text ← session.store.schemeText scheme
      return (.text text, session)

end Session

end TypedMatch
