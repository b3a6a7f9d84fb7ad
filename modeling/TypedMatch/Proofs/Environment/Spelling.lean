import TypedMatch.Proofs.Environment.Likeness

/-!
# The spelling of aliases

An alias with its arguments stands for its body, and either may be written.  Two types are equated if one
comes from the other by putting bodies in the place of aliases, or aliases in the place of bodies, any
number of times and anywhere.  Types that are equated have roots of one form, with equated parts.
-/

set_option autoImplicit false

namespace TypedMatch

namespace Ty

variable {Var : Type} {related : Ty Var → Ty Var → Prop}

theorem eqvGen_bind_update {Source : Type} [DecidableEq Source] (congruence : IsCongruence related)
    (reflexive : ∀ type, related type type) (type : Ty Source) (choose : Source → Ty Var) (v : Source)
    {first second : Ty Var} (equated : Relation.EqvGen related first second) :
    Relation.EqvGen related (type.bind (Function.update choose v first))
      (type.bind (Function.update choose v second)) := by
  induction equated with
  | rel first second isRelated =>
      refine .rel _ _ (congruence type ?_)
      intro w _
      by_cases same : w = v
      · subst same
        simpa only [Function.update_self] using isRelated
      · simpa only [Function.update_of_ne same] using reflexive (choose w)
  | refl => exact .refl _
  | symm _ _ _ inductionHypothesis => exact .symm _ _ inductionHypothesis
  | trans _ _ _ _ _ before after => exact .trans _ _ _ before after

theorem IsCongruence.eqvGen (congruence : IsCongruence related) (reflexive : ∀ type, related type type) :
    IsCongruence (Relation.EqvGen related) := by
  classical
  intro Source type first second each
  -- The types are exchanged variable by variable, which those in `vars` already are.
  let mixed (vars : List Source) (v : Source) : Ty Var := if v ∈ vars then second v else first v
  have chain : ∀ vars : List Source, (∀ v ∈ vars, Relation.EqvGen related (first v) (second v)) →
      Relation.EqvGen related (type.bind first) (type.bind (mixed vars)) := by
    intro vars
    induction vars with
    | nil =>
        intro _
        simp only [mixed, List.not_mem_nil, if_false]
        exact .refl _
    | cons u vars inductionHypothesis =>
        intro eachEquated
        obtain ⟨isEquated, othersEquated⟩ := List.forall_mem_cons.mp eachEquated
        have mixedEquated : Relation.EqvGen related (mixed vars u) (second u) := by
          by_cases among : u ∈ vars
          · simp only [mixed, if_pos among]
            exact .refl _
          · simpa only [mixed, if_neg among] using isEquated
        have next : mixed (u :: vars) = Function.update (mixed vars) u (second u) := by
          funext v
          by_cases same : v = u
          · subst same
            simp only [mixed, List.mem_cons_self, if_true, Function.update_self]
          · simp only [mixed, List.mem_cons, same, false_or, Function.update_of_ne same]
        have step := eqvGen_bind_update congruence reflexive type (mixed vars) u mixedEquated
        rw [Function.update_eq_self, ← next] at step
        exact .trans _ _ _ (inductionHypothesis othersEquated) step
  have last : type.bind (mixed type.leaves) = type.bind second :=
    bind_congr type fun v occurs => if_pos occurs
  rw [← last]
  exact chain type.leaves each

section Places

variable {differ others : Ty Var → Ty Var → Prop} {type image : Ty Var}

theorem SameUpTo.imp (implies : ∀ {type image}, differ type image → others type image)
    (same : SameUpTo differ type image) : SameUpTo others type image := by
  obtain ⟨pattern, isFirst, isSecond, differs⟩ := same
  exact ⟨pattern, isFirst, isSecond, fun pair among => implies (differs pair among)⟩

theorem SameUpTo.flip (same : SameUpTo differ type image) : SameUpTo (flip differ) image type := by
  obtain ⟨pattern, rfl, rfl, differs⟩ := same
  refine ⟨pattern.map Prod.swap, bind_bind _ _ _, bind_bind _ _ _, ?_⟩
  intro pair among
  rw [map, leaves_bind] at among
  obtain ⟨original, occurs, isSwapped⟩ := List.mem_flatMap.mp among
  rw [List.mem_singleton.mp isSwapped]
  exact differs original occurs

end Places

end Ty

theorem Template.mimics_self {related : Ty Unit → Ty Unit → Prop} (congruence : Ty.IsCongruence related)
    (unknown : related (.var ()) (.var ())) (template : Template) : template.Mimics related template where
  sameArity := rfl
  fills argsRelated := congruence template.body fun v _ => template.argument_related unknown argsRelated v

namespace Environment

/-! ## Equated types -/

section Equates

variable {Var NewVar : Type} [Inhabited Var] [Inhabited NewVar] {env other : Environment}

/-- Whether the first type is an alias with its arguments and the second what it stands for, or both are
the same variable. -/
inductive Unfolds (env : Environment) : Ty Var → Ty Var → Prop where
  | var (v : Var) : Unfolds env (.var v) (.var v)
  | application {con : TyCon} {args : List (Ty Var)} {template : Template} :
      env.abbreviates con = true → env.body? con = some template →
      template.params.length = args.length → Unfolds env (.data con args) (template.fill args)

def Equates (env : Environment) : Ty Var → Ty Var → Prop :=
  Relation.EqvGen (Ty.SameUpTo env.Unfolds)

variable {type image last : Ty Var}

theorem sameUpTo_unfolds_refl (type : Ty Var) : Ty.SameUpTo env.Unfolds type type :=
  Ty.sameUpTo_refl Unfolds.var type

theorem equates_isCongruence (env : Environment) :
    Ty.IsCongruence (env.Equates : Ty Var → Ty Var → Prop) :=
  Ty.IsCongruence.eqvGen (Ty.isCongruence_sameUpTo _) sameUpTo_unfolds_refl

theorem Equates.refl (type : Ty Var) : env.Equates type type := Relation.EqvGen.refl type

theorem Equates.symm (equates : env.Equates type image) : env.Equates image type :=
  Relation.EqvGen.symm _ _ equates

theorem Equates.trans (equates : env.Equates type image) (further : env.Equates image last) :
    env.Equates type last :=
  Relation.EqvGen.trans _ _ _ equates further

theorem equates_application {con : TyCon} {args : List (Ty Var)} {template : Template}
    (abbreviates : env.abbreviates con = true) (isBody : env.body? con = some template)
    (fits : template.params.length = args.length) :
    env.Equates (.data con args) (template.fill args) :=
  .rel _ _ (Ty.sameUpTo_of_differ (.application abbreviates isBody fits))

theorem Equates.of_same (sameAliases : other.abbreviates = env.abbreviates)
    (sameBodies : other.body? = env.body?) (equates : env.Equates type image) :
    other.Equates type image := by
  have same : ∀ {type image : Ty Var}, env.Unfolds type image → other.Unfolds type image := by
    intro type image unfolds
    cases unfolds with
    | var v => exact .var v
    | application abbreviates isBody fits =>
        exact .application (sameAliases ▸ abbreviates) (sameBodies ▸ isBody) fits
  exact Relation.EqvGen.mono (fun _ _ (sameUpTo : Ty.SameUpTo _ _ _) => sameUpTo.imp same) _ _ equates

theorem Equates.bind {replace : Var → Ty NewVar} (unknown : replace default = .var default)
    (equates : env.Equates type image) : env.Equates (type.bind replace) (image.bind replace) := by
  induction equates with
  | rel _ _ same =>
      obtain ⟨pattern, rfl, rfl, differs⟩ := same
      rw [Ty.bind_bind, Ty.bind_bind]
      refine .rel _ _ (Ty.isCongruence_sameUpTo _ pattern ?_)
      intro pair among
      obtain ⟨first, second⟩ := pair
      cases differs _ among with
      | var v => exact sameUpTo_unfolds_refl (replace v)
      | @application con args template abbreviates isBody fits =>
          have unfolds : env.Unfolds ((Ty.data con args).bind replace)
              ((template.fill args).bind replace) := by
            rw [Template.bind_fill unknown, Ty.bind, Ty.bindList_eq_map]
            exact .application abbreviates isBody (fits.trans (List.length_map _).symm)
          exact Ty.sameUpTo_of_differ unfolds
  | refl => exact .refl _
  | symm _ _ _ inductionHypothesis => exact inductionHypothesis.symm
  | trans _ _ _ _ _ before after => exact before.trans after

end Equates

/-! ## Roots of equated types -/

section Roots

variable {env other : Environment} {type image root : Ty Unit}

theorem exists_root_of_unfolds (same : Ty.SameUpTo env.Unfolds type image) (stands : env.Root type root)
    (visible : ¬ root.IsSealed) :
    ∃ imageRoot, env.Root image imageRoot ∧ root.SameForm (Ty.SameUpTo env.Unfolds) imageRoot := by
  refine exists_root_of_places rfl ?_ ?_ same stands visible
  · intro con template isBody
    have unknown : Ty.SameUpTo env.Unfolds (.var ()) (.var ()) := sameUpTo_unfolds_refl _
    exact ⟨template, isBody, template.mimics_self (Ty.isCongruence_sameUpTo _) unknown⟩
  · intro type image root unfolds stands visible
    cases unfolds with
    | var v =>
        rw [stands.eq_of_not_alias rfl] at visible
        exact absurd trivial visible
    | application abbreviates isBody fits =>
        obtain ⟨_, stands⟩ := stands
        cases stands with
        | here notAlias => cases abbreviates.symm.trans (aliasAt?_data_eq_none.mp notAlias)
        | behind _ otherBody _ stands =>
            cases isBody.symm.trans otherBody
            exact ⟨root, ⟨_, stands⟩, .refl sameUpTo_unfolds_refl visible⟩

theorem exists_root_of_folds (same : Ty.SameUpTo (flip env.Unfolds) type image)
    (stands : env.Root type root) (visible : ¬ root.IsSealed) :
    ∃ imageRoot, env.Root image imageRoot ∧
      root.SameForm (Ty.SameUpTo (flip env.Unfolds)) imageRoot := by
  have reflexive : ∀ type : Ty Unit, Ty.SameUpTo (flip env.Unfolds) type type :=
    fun type => (sameUpTo_unfolds_refl type).flip
  refine exists_root_of_places rfl ?_ ?_ same stands visible
  · intro con template isBody
    exact ⟨template, isBody, template.mimics_self (Ty.isCongruence_sameUpTo _) (reflexive _)⟩
  · intro type image root folds stands visible
    cases folds with
    | var v =>
        rw [stands.eq_of_not_alias rfl] at visible
        exact absurd trivial visible
    | application abbreviates isBody fits =>
        obtain ⟨steps, stands⟩ := stands
        exact ⟨root, ⟨steps + 1, .behind abbreviates isBody fits stands⟩, .refl reflexive visible⟩

/-- Whether every root of the first type that patterns can look into has the form of a root of the
second one. -/
def RootsFrom (env : Environment) (type image : Ty Unit) : Prop :=
  ∀ {root : Ty Unit}, env.Root type root → ¬ root.IsSealed →
    ∃ imageRoot, env.Root image imageRoot ∧ root.SameForm env.Equates imageRoot

theorem Equates.rootsFrom (equates : env.Equates type image) :
    env.RootsFrom type image ∧ env.RootsFrom image type := by
  induction equates with
  | rel _ _ same =>
      constructor
      · intro root stands visible
        obtain ⟨imageRoot, imageStands, sameForm⟩ := exists_root_of_unfolds same stands visible
        exact ⟨imageRoot, imageStands, sameForm.imp fun same => .rel _ _ same⟩
      · intro root stands visible
        obtain ⟨imageRoot, imageStands, sameForm⟩ := exists_root_of_folds same.flip stands visible
        exact ⟨imageRoot, imageStands, sameForm.imp fun same => Equates.symm (.rel _ _ same.flip)⟩
  | refl type =>
      have itself : env.RootsFrom type type :=
        fun stands visible => ⟨_, stands, .refl Equates.refl visible⟩
      exact ⟨itself, itself⟩
  | symm _ _ _ inductionHypothesis => exact inductionHypothesis.symm
  | trans _ _ _ _ _ before after =>
      have chained : ∀ {first second third : Ty Unit}, env.RootsFrom first second →
          env.RootsFrom second third → env.RootsFrom first third := by
        intro first second third firstFrom secondFrom root stands visible
        obtain ⟨middle, middleStands, sameForm⟩ := firstFrom stands visible
        obtain ⟨last, lastStands, further⟩ := secondFrom middleStands (sameForm.visible visible)
        exact ⟨last, lastStands, sameForm.trans Equates.trans further⟩
      exact ⟨chained before.1 after.1, chained after.2 before.2⟩

theorem Equates.root_unit (equates : env.Equates type image) (stands : env.Root type .unit) :
    env.Root image .unit := by
  obtain ⟨imageRoot, imageStands, sameForm⟩ := equates.rootsFrom.1 stands not_false
  cases sameForm
  exact imageStands

theorem Root.of_same (sameAliases : other.abbreviates = env.abbreviates)
    (sameBodies : other.body? = env.body?) (stands : env.Root type root) : other.Root type root := by
  obtain ⟨steps, stands⟩ := stands
  refine ⟨steps, ?_⟩
  induction stands with
  | @here type notAlias =>
      refine .here ?_
      rw [← notAlias]
      cases type with
      | data con args => rw [aliasAt?, aliasAt?, sameAliases]
      | _ => rfl
  | behind abbreviates isBody fits _ inductionHypothesis =>
      exact .behind (sameAliases ▸ abbreviates) (sameBodies ▸ isBody) fits inductionHypothesis

end Roots

end Environment

end TypedMatch
