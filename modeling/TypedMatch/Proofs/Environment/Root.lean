import Mathlib
import TypedMatch.Declaration.Environment
import TypedMatch.Proofs.Store.Outline

/-!
# What a type stands for

Apart from any store, an environment says what an application of an alias stands for, and which
constructors a type offers.  The statements here are about outlines: types without links and synonyms
whose free variables are all alike.  `Environment.outline` brings the templates of an environment into
that form, as they are seen from a store.

An alias is replaced by its body until something else is at the root.  `RootWithin` counts these steps;
the number and the result are decided by the type.
-/

set_option autoImplicit false

namespace TypedMatch

/-- What a variable of a template stands for once its parameters are given types.  Of a variable
that is no parameter nothing is known. -/
def Template.argument {Var : Type} [Inhabited Var] (template : Template) (args : List (Ty Var)) :
    SchemeVar → Ty Var
  | .free _ => .var default
  | .bound param => ((Store.pairUp template.params args).lookup param).getD (.var default)

def Template.fill {Var : Type} [Inhabited Var] (template : Template) (args : List (Ty Var)) :
    Ty Var :=
  template.body.bind (template.argument args)

def Template.outline (store : Store) (template : Template) : Template where
  params := template.params
  body := template.body.resolve fun
    | .free v => (store.outlineOf v).map fun _ => .free default
    | .bound param => .var (.bound param)

namespace Template

variable {Var NewVar : Type}

theorem lookup_pairUp_map {Arg NewArg : Type} (change : Arg → NewArg) (params : List BoundVar)
    (args : List Arg) (param : BoundVar) :
    (Store.pairUp params (args.map change)).lookup param
      = ((Store.pairUp params args).lookup param).map change := by
  have mapped (entries : List (BoundVar × Arg)) :
      (entries.map fun entry => (entry.1, change entry.2)).lookup param
        = (entries.lookup param).map change := by
    induction entries with
    | nil => rfl
    | cons entry rest inductionHypothesis =>
        obtain ⟨stored, arg⟩ := entry
        cases same : param == stored <;>
          simp [List.lookup_cons, same, inductionHypothesis]
  rw [← mapped]
  congr 1
  simp only [Store.pairUp, List.zip_map_right, List.map_reverse]
  rfl

theorem mem_of_lookup_pairUp {Arg : Type} {params : List BoundVar} {args : List Arg}
    {param : BoundVar} {arg : Arg}
    (given : (Store.pairUp params args).lookup param = some arg) : arg ∈ args := by
  obtain ⟨before, after, split, _⟩ := List.lookup_eq_some_iff.mp given
  have among : (param, arg) ∈ Store.pairUp params args := by simp [split]
  exact (List.of_mem_zip (List.mem_reverse.mp among)).2

theorem lookup_pairUp_of_forall₂ {Arg Image : Type} {related : Arg → Image → Prop} {args : List Arg}
    {images : List Image} (each : List.Forall₂ related args images) (params : List BoundVar)
    (param : BoundVar) :
    ((Store.pairUp params args).lookup param = none ∧
      (Store.pairUp params images).lookup param = none) ∨
    ∃ arg image, (Store.pairUp params args).lookup param = some arg ∧
      (Store.pairUp params images).lookup param = some image ∧ related arg image := by
  obtain ⟨sameLength, inZip⟩ := List.forall₂_iff_zip.mp each
  have isFst := lookup_pairUp_map Prod.fst params (args.zip images) param
  have isSnd := lookup_pairUp_map Prod.snd params (args.zip images) param
  rw [List.map_fst_zip (Nat.le_of_eq sameLength)] at isFst
  rw [List.map_snd_zip (Nat.le_of_eq sameLength.symm)] at isSnd
  rw [isFst, isSnd]
  cases found : (Store.pairUp params (args.zip images)).lookup param with
  | none => exact .inl ⟨rfl, rfl⟩
  | some pair => exact .inr ⟨pair.1, pair.2, rfl, rfl, inZip (mem_of_lookup_pairUp found)⟩

theorem bind_fill [Inhabited Var] [Inhabited NewVar] {replace : Var → Ty NewVar}
    (unknown : replace default = .var default) (template : Template) (args : List (Ty Var)) :
    (template.fill args).bind replace = template.fill (args.map fun arg => arg.bind replace) := by
  rw [fill, fill, Ty.bind_bind]
  apply Ty.bind_congr _
  intro v _
  cases v with
  | free v => exact unknown
  | bound param =>
      simp only [argument, lookup_pairUp_map]
      cases (Store.pairUp template.params args).lookup param with
      | none => exact unknown
      | some arg => rfl

end Template

namespace Environment

/-- An environment whose templates are as they are seen from a store. -/
def outline (env : Environment) (store : Store) : Environment where
  constructors? con :=
    (env.constructors? con).map fun constructors =>
      constructors.map fun constructor => ⟨constructor.name, constructor.payload.outline store⟩
  abbreviates := env.abbreviates
  body? con := (env.body? con).map (Template.outline store)
  bodies := env.bodies.map (Template.outline store)
  body?_mem := by
    intro con outlined found
    obtain ⟨template, isBody, rfl⟩ := Option.map_eq_some_iff.mp found
    exact List.mem_map_of_mem (env.body?_mem isBody)

section Root

variable {Var : Type}

theorem aliasAt?_data_eq_none {env : Environment} {con : TyCon} {args : List (Ty Var)} :
    env.aliasAt? (.data con args) = none ↔ env.abbreviates con = false := by
  cases abbreviates : env.abbreviates con <;> simp [aliasAt?, abbreviates]

variable [Inhabited Var]

/-- What is at the root of a type once so many aliases in a row have given way to their bodies. -/
inductive RootWithin (env : Environment) : Nat → Ty Var → Ty Var → Prop where
  | here {type : Ty Var} : env.aliasAt? type = none → RootWithin env 0 type type
  | behind {steps : Nat} {con : TyCon} {args : List (Ty Var)} {template : Template}
      {root : Ty Var} : env.abbreviates con = true → env.body? con = some template →
      template.params.length = args.length → RootWithin env steps (template.fill args) root →
      RootWithin env (steps + 1) (.data con args) root

def Root (env : Environment) (type root : Ty Var) : Prop :=
  ∃ steps, env.RootWithin steps type root

variable {env : Environment} {steps others : Nat} {type root other : Ty Var}

theorem RootWithin.unique (stands : env.RootWithin steps type root)
    (otherwise : env.RootWithin others type other) : steps = others ∧ root = other := by
  induction stands generalizing others other with
  | here notAlias =>
      cases otherwise with
      | here _ => exact ⟨rfl, rfl⟩
      | behind abbreviates _ _ _ =>
          cases abbreviates.symm.trans (aliasAt?_data_eq_none.mp notAlias)
  | behind abbreviates isBody _ _ inductionHypothesis =>
      cases otherwise with
      | here notAlias => cases abbreviates.symm.trans (aliasAt?_data_eq_none.mp notAlias)
      | behind _ otherBody _ otherStands =>
          cases isBody.symm.trans otherBody
          obtain ⟨sameSteps, sameRoot⟩ := inductionHypothesis otherStands
          exact ⟨congrArg (· + 1) sameSteps, sameRoot⟩

theorem Root.unique (stands : env.Root type root) (otherwise : env.Root type other) :
    root = other := by
  obtain ⟨_, stands⟩ := stands
  obtain ⟨_, otherwise⟩ := otherwise
  exact (stands.unique otherwise).2

theorem root_self (notAlias : env.aliasAt? type = none) : env.Root type type :=
  ⟨0, .here notAlias⟩

theorem Root.eq_of_not_alias (stands : env.Root type root) (notAlias : env.aliasAt? type = none) :
    root = type :=
  stands.unique (root_self notAlias)

end Root

/-! ## Constructors -/

/-- Whether a type has a constructor of this name with a payload of this type. -/
def Offers (env : Environment) (type : Ty Unit) (name : String) (payload : Ty Unit) : Prop :=
  ∃ con args constructors constructor, env.Root type (.data con args) ∧
    env.constructors? con = some constructors ∧ constructor ∈ constructors ∧
    constructor.name = name ∧ constructor.payload.fill args = payload

/-- Whether a root is that of a variant that is declared with distinct constructors and applied to as
many arguments as each payload has parameters.  Any other root is declared in any case. -/
def Declares (env : Environment) (root : Ty Unit) : Prop :=
  ∀ con args, root = .data con args →
    ∃ constructors, env.constructors? con = some constructors ∧
      (constructors.map Constructor.name).Nodup ∧
      ∀ constructor ∈ constructors, constructor.payload.params.length = args.length

/-- Whether a type stands for something, and for a declared variant if for a variant. -/
def RootDeclared (env : Environment) (type : Ty Unit) : Prop :=
  ∃ root, env.Root type root ∧ env.Declares root

/-- The types that are reached from a type by looking into its values. -/
inductive Reaches (env : Environment) (type : Ty Unit) : Ty Unit → Prop where
  | self : Reaches env type type
  | root {found root : Ty Unit} : Reaches env type found → env.Root found root →
      Reaches env type root
  | element {found element : Ty Unit} : Reaches env type found → env.Root found (.list element) →
      Reaches env type element
  | component {found component : Ty Unit} {components : List (Ty Unit)} :
      Reaches env type found → env.Root found (.product components) → component ∈ components →
      Reaches env type component
  | payload {found payload : Ty Unit} {name : String} : Reaches env type found →
      env.Offers found name payload → Reaches env type payload

/-- Whether every type that is reached stands for something, and for a declared variant if for a
variant. -/
def Sound (env : Environment) (type : Ty Unit) : Prop :=
  ∀ found, env.Reaches type found → ∃ root, env.Root found root ∧ env.Declares root

variable {env : Environment} {type found other root payload : Ty Unit} {name : String}

theorem Reaches.trans (first : env.Reaches type found) (second : env.Reaches found other) :
    env.Reaches type other := by
  induction second with
  | self => exact first
  | root _ stands inductionHypothesis => exact .root inductionHypothesis stands
  | element _ stands inductionHypothesis => exact .element inductionHypothesis stands
  | component _ stands among inductionHypothesis =>
      exact .component inductionHypothesis stands among
  | payload _ offered inductionHypothesis => exact .payload inductionHypothesis offered

theorem Sound.of_reaches (sound : env.Sound type) (reaches : env.Reaches type found) :
    env.Sound found :=
  fun other further => sound other (reaches.trans further)

theorem Sound.rootDeclared (sound : env.Sound type) : env.RootDeclared type := sound type .self

theorem RootDeclared.declares (rooted : env.RootDeclared type) (stands : env.Root type root) :
    env.Declares root := by
  obtain ⟨other, otherwise, declared⟩ := rooted
  rw [stands.unique otherwise]
  exact declared

theorem Offers.unique (rooted : env.RootDeclared type) (offered : env.Offers type name payload)
    (otherwise : env.Offers type name other) : payload = other := by
  obtain ⟨con, args, constructors, constructor, stands, listed, among, named, rfl⟩ := offered
  obtain ⟨_, _, _, second, otherStands, otherListed, otherAmong, otherNamed, rfl⟩ := otherwise
  cases stands.unique otherStands
  cases listed.symm.trans otherListed
  obtain ⟨_, declared, distinct, _⟩ := rooted.declares stands con args rfl
  cases listed.symm.trans declared
  have same : constructor = second :=
    List.inj_on_of_nodup_map distinct among otherAmong (named.trans otherNamed.symm)
  rw [same]

end Environment

end TypedMatch
