import TypedMatch.Declaration.Basic
import TypedMatch.Proofs.Environment.Expand

/-!
# Aliases in layers

Where the body of every alias applies only types of lower numbers, every alias lies above the aliases that
its body sets off.  What an alias stands for may be larger than the application, and it may show an alias of
a higher number, because an argument can come to the root.  Still every application of the right number of
arguments ends: by induction over the layers, for all arguments that end, and inside a body by induction over
the body.
-/

set_option autoImplicit false

namespace TypedMatch

/-! ## Applications -/

namespace Ty

variable {Var NewVar : Type}

mutual

/-- The declared types that are applied in what a type stands for, each with the number of its
arguments. -/
def applications : Ty Var → List (TyCon × Nat)
  | base _ => []
  | var _ => []
  | arrow optional domain codomain =>
      applicationsList optional ++ domain.applications ++ codomain.applications
  | list element => element.applications
  | ref content => content.applications
  | product components => applicationsList components
  | data con args => (con, args.length) :: applicationsList args
  | synonym _ _ expansion => expansion.applications
  | record fields => applicationsFields fields
  | command _ args => applicationsArgs args

def applicationsList : List (Ty Var) → List (TyCon × Nat)
  | [] => []
  | type :: rest => type.applications ++ applicationsList rest

def applicationsFields : List (String × Ty Var) → List (TyCon × Nat)
  | [] => []
  | (_, type) :: rest => type.applications ++ applicationsFields rest

def applicationsArgs : List (ArgMode × Ty Var) → List (TyCon × Nat)
  | [] => []
  | (_, type) :: rest => type.applications ++ applicationsArgs rest

end

/-- Whether an application stands in a type, or in the type put in for one of its variables. -/
def AppliedIn (replace : Var → Ty NewVar) (application : TyCon × Nat)
    (own : List (TyCon × Nat)) (vars : List Var) : Prop :=
  application ∈ own ∨ ∃ v ∈ vars, application ∈ (replace v).applications

theorem AppliedIn.mono {replace : Var → Ty NewVar} {application : TyCon × Nat}
    {own wider : List (TyCon × Nat)} {vars more : List Var}
    (applied : AppliedIn replace application own vars) (ownSubset : own ⊆ wider)
    (varsSubset : vars ⊆ more) : AppliedIn replace application wider more := by
  rcases applied with inOwn | ⟨v, occurs, inImage⟩
  · exact .inl (ownSubset inOwn)
  · exact .inr ⟨v, varsSubset occurs, inImage⟩

section Resolve

variable {replace : Var → Ty NewVar} {application : TyCon × Nat}

mutual

theorem appliedIn_of_resolve :
    ∀ type : Ty Var, application ∈ (type.resolve replace).applications →
      AppliedIn replace application type.applications type.leaves
  | .base _, among => nomatch among
  | .var v, among => .inr ⟨v, .head _, among⟩
  | .arrow optional domain codomain, among => by
      simp only [resolve, applications, List.mem_append] at among
      simp only [applications, leaves]
      rcases among with (inOptional | inDomain) | inCodomain
      · exact (appliedIn_of_resolveList optional inOptional).mono (by simp) (by simp)
      · exact (appliedIn_of_resolve domain inDomain).mono (by simp) (by simp)
      · exact (appliedIn_of_resolve codomain inCodomain).mono (by simp) (by simp)
  | .list element, among => appliedIn_of_resolve element among
  | .ref content, among => appliedIn_of_resolve content among
  | .product components, among => appliedIn_of_resolveList components among
  | .data con args, among => by
      simp only [resolve, applications, resolveList_eq_map, List.length_map, List.mem_cons] at among
      simp only [applications, leaves]
      rcases among with isRoot | inArgs
      · exact .inl (by simp [isRoot])
      · rw [← resolveList_eq_map] at inArgs
        exact (appliedIn_of_resolveList args inArgs).mono (by simp) (by simp)
  | .synonym _ args expansion, among =>
      (appliedIn_of_resolve expansion among).mono (List.Subset.refl _) (by simp [leaves])
  | .record fields, among => appliedIn_of_resolveFields fields among
  | .command _ args, among => appliedIn_of_resolveArgs args among

theorem appliedIn_of_resolveList :
    ∀ types : List (Ty Var), application ∈ applicationsList (resolveList replace types) →
      AppliedIn replace application (applicationsList types) (leavesList types)
  | [], among => nomatch among
  | type :: rest, among => by
      simp only [resolveList, applicationsList, List.mem_append] at among
      simp only [applicationsList, leavesList]
      rcases among with inFirst | inRest
      · exact (appliedIn_of_resolve type inFirst).mono (by simp) (by simp)
      · exact (appliedIn_of_resolveList rest inRest).mono (by simp) (by simp)

theorem appliedIn_of_resolveFields :
    ∀ fields : List (String × Ty Var), application ∈ applicationsFields (resolveFields replace fields) →
      AppliedIn replace application (applicationsFields fields) (leavesFields fields)
  | [], among => nomatch among
  | (_, type) :: rest, among => by
      simp only [resolveFields, applicationsFields, List.mem_append] at among
      simp only [applicationsFields, leavesFields]
      rcases among with inFirst | inRest
      · exact (appliedIn_of_resolve type inFirst).mono (by simp) (by simp)
      · exact (appliedIn_of_resolveFields rest inRest).mono (by simp) (by simp)

theorem appliedIn_of_resolveArgs :
    ∀ args : List (ArgMode × Ty Var), application ∈ applicationsArgs (resolveArgs replace args) →
      AppliedIn replace application (applicationsArgs args) (leavesArgs args)
  | [], among => nomatch among
  | (_, type) :: rest, among => by
      simp only [resolveArgs, applicationsArgs, List.mem_append] at among
      simp only [applicationsArgs, leavesArgs]
      rcases among with inFirst | inRest
      · exact (appliedIn_of_resolve type inFirst).mono (by simp) (by simp)
      · exact (appliedIn_of_resolveArgs rest inRest).mono (by simp) (by simp)

end

end Resolve

end Ty

theorem Store.applied_of_outline {store : Store} {type : Ty MetaVar} {application : TyCon × Nat}
    (among : application ∈ (store.outline type).applications) : application ∈ type.applications ∨
      ∃ v target, store.cells.get? v = some (.linked target) ∧ application ∈ target.applications := by
  have behind : ∀ (fuel : Nat) (v : MetaVar), application ∈ (store.outlineVar fuel v).applications →
      ∃ w target, store.cells.get? w = some (.linked target) ∧
        application ∈ target.applications := by
    intro fuel
    induction fuel with
    | zero =>
        intro v inVar
        cases inVar
    | succ fuel inductionHypothesis =>
        intro v inVar
        rw [outlineVar] at inVar
        split at inVar
        · rename_i target stored
          rcases Ty.appliedIn_of_resolve target inVar with inTarget | ⟨w, _, further⟩
          · exact ⟨v, target, stored, inTarget⟩
          · exact inductionHypothesis w further
        · cases inVar
  rcases Ty.appliedIn_of_resolve type among with inType | ⟨v, _, inVar⟩
  · exact .inl inType
  · exact .inr (behind _ v inVar)

/-! ## Applications that end -/

namespace Environment

variable {env : Environment}

section Ends

variable {Var Code : Type} [Inhabited Var]

/-- Whether replacing the aliases at the root of a type comes to an end. -/
def Ends (env : Environment) (type : Ty Var) : Prop := ∃ root, env.Root type root

/-- Whether a declared type with a number of arguments ends, if all of its arguments do. -/
def Carries (env : Environment) (Var : Type) [Inhabited Var] (application : TyCon × Nat) : Prop :=
  ∀ args : List (Ty Var), args.length = application.2 → (∀ arg ∈ args, env.Ends arg) →
    env.Ends (.data application.1 args)

variable {replace : Code → Ty Var}

mutual

theorem ends_bind (each : ∀ v, env.Ends (replace v)) :
    ∀ type : Ty Code, (∀ application ∈ type.applications, env.Carries Var application) →
      env.Ends (type.bind replace)
  | .var v, _ => each v
  | .data con args, carries => by
      have argsEnd := ends_bindList each args fun application among => carries application (.tail _ among)
      rw [Ty.bind]
      refine carries (con, args.length) (.head _) _ ?_ argsEnd
      rw [Ty.bindList_eq_map, List.length_map]
  | .base _, _ => ⟨_, root_self rfl⟩
  | .arrow _ _ _, _ => ⟨_, root_self rfl⟩
  | .list _, _ => ⟨_, root_self rfl⟩
  | .ref _, _ => ⟨_, root_self rfl⟩
  | .product _, _ => ⟨_, root_self rfl⟩
  | .synonym _ _ _, _ => ⟨_, root_self rfl⟩
  | .record _, _ => ⟨_, root_self rfl⟩
  | .command _ _, _ => ⟨_, root_self rfl⟩

theorem ends_bindList (each : ∀ v, env.Ends (replace v)) :
    ∀ types : List (Ty Code), (∀ application ∈ Ty.applicationsList types, env.Carries Var application) →
      ∀ type ∈ Ty.bindList replace types, env.Ends type
  | [], _ => List.forall_mem_nil _
  | type :: rest, carries => by
      rw [Ty.bindList, List.forall_mem_cons]
      constructor
      · exact ends_bind each type fun application among =>
          carries application (List.mem_append_left _ among)
      · exact ends_bindList each rest fun application among =>
          carries application (List.mem_append_right _ among)

end

theorem ends_of_carries {type : Ty Var}
    (carries : ∀ application ∈ type.applications, env.Carries Var application) : env.Ends type := by
  have ends : env.Ends (type.bind .var) := ends_bind (fun _ => ⟨_, root_self rfl⟩) type carries
  rwa [Ty.bind_var] at ends

/-- Whether an application of an alias has as many arguments as the alias has parameters.  Any other
application does in any case. -/
def Fits (env : Environment) (application : TyCon × Nat) : Prop :=
  ∀ template, env.body? application.1 = some template → application.2 = template.params.length

instance (env : Environment) (application : TyCon × Nat) : Decidable (env.Fits application) :=
  inferInstanceAs
    (Decidable (∀ template ∈ env.body? application.1, application.2 = template.params.length))

/-- Whether every alias has a body, which applies only types of lower numbers, and those among them that are
aliases to as many arguments as they have parameters. -/
structure Layered (env : Environment) : Prop where
  defined : ∀ {con : TyCon}, env.abbreviates con = true → ∃ template, env.body? con = some template
  lower : ∀ {con : TyCon} {template : Template}, env.body? con = some template →
    ∀ application ∈ template.body.applications, application.1.number < con.number
  fits : ∀ {con : TyCon} {template : Template}, env.body? con = some template →
    ∀ application ∈ template.body.applications, env.Fits application

theorem ends_argument (template : Template) {args : List (Ty Var)}
    (argsEnd : ∀ arg ∈ args, env.Ends arg) (v : SchemeVar) : env.Ends (template.argument args v) := by
  cases v with
  | free v => exact ⟨_, root_self rfl⟩
  | bound param =>
      rw [Template.argument]
      cases given : (Store.pairUp template.params args).lookup param with
      | none => exact ⟨_, root_self rfl⟩
      | some arg => exact argsEnd arg (Template.mem_of_lookup_pairUp given)

/-- In layers every application that fits carries. -/
theorem Layered.carries (layered : env.Layered) :
    ∀ (layer : Nat) (application : TyCon × Nat), application.1.number = layer → env.Fits application →
      env.Carries Var application := by
  intro layer
  induction layer using Nat.strongRecOn with
  | ind layer inductionHypothesis =>
      rintro ⟨con, count⟩ rfl fits args sameLength argsEnd
      cases abbreviates : env.abbreviates con with
      | false => exact ⟨_, root_self (aliasAt?_data_eq_none.mpr abbreviates)⟩
      | true =>
          obtain ⟨template, isBody⟩ := layered.defined abbreviates
          have enough : template.params.length = args.length :=
            (fits template isBody).symm.trans sameLength.symm
          -- The arguments may bring in aliases of any layer, but they are known to end.
          have bodyEnds : env.Ends (template.fill args) := by
            apply ends_bind (ends_argument template argsEnd)
            intro other among
            exact inductionHypothesis _ (layered.lower isBody other among) other rfl
              (layered.fits isBody other among)
          obtain ⟨root, steps, stands⟩ := bodyEnds
          exact ⟨root, steps + 1, .behind abbreviates isBody enough stands⟩

theorem Layered.ends (layered : env.Layered) {type : Ty Var}
    (fits : ∀ application ∈ type.applications, env.Fits application) : env.Ends type :=
  ends_of_carries fun application among => layered.carries _ application rfl (fits application among)

end Ends

end Environment

end TypedMatch
