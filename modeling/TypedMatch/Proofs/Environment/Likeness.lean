import TypedMatch.Proofs.Value.Typing

/-!
# Types that differ in places

Two types are the same up to some places if both come from one pattern, a type whose leaves are pairs of
types: the first type has the first of each pair in its place, and the second type the second.  Putting
such types in the place of variables gives such types again.

One environment mimics another one along a relation on types if whatever the second shows of a type, the
first shows of every related type.  For types that are the same up to some places this only has to be seen
at these places, and of the templates that are declared.
-/

set_option autoImplicit false

namespace TypedMatch

namespace Ty

/-! ## Differing in places -/

section Places

variable {Var Source : Type} {differ : Ty Var → Ty Var → Prop} {type image : Ty Var}

/-- Whether two types are the same but for some places, where they differ in the given way. -/
def SameUpTo (differ : Ty Var → Ty Var → Prop) (type image : Ty Var) : Prop :=
  ∃ pattern : Ty (Ty Var × Ty Var), pattern.bind Prod.fst = type ∧ pattern.bind Prod.snd = image ∧
    ∀ pair ∈ pattern.leaves, differ pair.1 pair.2

theorem sameUpTo_of_differ (differs : differ type image) : SameUpTo differ type image := by
  refine ⟨.var (type, image), rfl, rfl, ?_⟩
  intro pair among
  rw [List.mem_singleton.mp among]
  exact differs

/-- Whether related types that are put in the place of variables make related types. -/
def IsCongruence (related : Ty Var → Ty Var → Prop) : Prop :=
  ∀ {Source : Type} (type : Ty Source) {first second : Source → Ty Var},
    (∀ v ∈ type.leaves, related (first v) (second v)) → related (type.bind first) (type.bind second)

theorem isCongruence_sameUpTo (differ : Ty Var → Ty Var → Prop) : IsCongruence (SameUpTo differ) := by
  intro Source type first second each
  choose! pattern isFirst isSecond differs using each
  refine ⟨type.bind pattern, ?_, ?_, ?_⟩
  · rw [bind_bind]
    exact bind_congr type isFirst
  · rw [bind_bind]
    exact bind_congr type isSecond
  · intro pair among
    rw [leaves_bind] at among
    obtain ⟨v, occurs, inPattern⟩ := List.mem_flatMap.mp among
    exact differs v occurs pair inPattern

theorem IsCongruence.resolve {related : Ty Var → Ty Var → Prop} (congruence : IsCongruence related)
    {first second : Source → Ty Var} (type : Ty Source)
    (each : ∀ v ∈ type.leaves, related (first v) (second v)) :
    related (type.resolve first) (type.resolve second) := by
  classical
  -- Variables that do not occur may be given any type.
  let only (choose : Source → Ty Var) (v : Source) : Ty Var :=
    if v ∈ type.leaves then choose v else .unit
  have resolved (choose : Source → Ty Var) :
      (type.resolve Ty.var).bind (only choose) = type.resolve choose := by
    rw [bind_resolve]
    exact resolve_congr type fun v occurs => if_pos occurs
  have unitRelated : related (Ty.unit.bind first) (Ty.unit.bind second) :=
    congruence .unit (List.forall_mem_nil _)
  rw [← resolved first, ← resolved second]
  apply congruence
  intro v _
  by_cases occurs : v ∈ type.leaves
  · simpa only [only, if_pos occurs] using each v occurs
  · simp only [only, if_neg occurs]
    exact unitRelated

theorem sameUpTo_refl (alike : ∀ v, differ (.var v) (.var v)) (type : Ty Var) :
    SameUpTo differ type type := by
  have each : ∀ v ∈ type.leaves, SameUpTo differ (.var v) (.var v) :=
    fun v _ => sameUpTo_of_differ (alike v)
  simpa only [bind_var] using isCongruence_sameUpTo differ type each

theorem forall₂_sameUpTo {patterns : List (Ty (Ty Var × Ty Var))}
    (differs : ∀ pair ∈ leavesList patterns, differ pair.1 pair.2) :
    List.Forall₂ (SameUpTo differ) (bindList Prod.fst patterns) (bindList Prod.snd patterns) := by
  induction patterns with
  | nil => exact .nil
  | cons pattern rest inductionHypothesis =>
      rw [leavesList, List.forall_mem_append] at differs
      exact .cons ⟨pattern, rfl, rfl, differs.1⟩ (inductionHypothesis differs.2)

/-- Whether two types that patterns can look into have the same form at the root, with related parts. -/
inductive SameForm (related : Ty Var → Ty Var → Prop) : Ty Var → Ty Var → Prop where
  | base (kind : BaseTy) : SameForm related (.base kind) (.base kind)
  | list {element image : Ty Var} : related element image → related (.list element) (.list image) →
      SameForm related (.list element) (.list image)
  | product {components images : List (Ty Var)} : List.Forall₂ related components images →
      SameForm related (.product components) (.product images)
  | data (con : TyCon) {args images : List (Ty Var)} : List.Forall₂ related args images →
      SameForm related (.data con args) (.data con images)

namespace SameForm

variable {related others : Ty Var → Ty Var → Prop} {last : Ty Var}

theorem imp (implies : ∀ {type image}, related type image → others type image)
    (sameForm : type.SameForm related image) : type.SameForm others image := by
  cases sameForm with
  | base kind => exact .base kind
  | list element rest => exact .list (implies element) (implies rest)
  | product components => exact .product (components.imp fun _ _ => implies)
  | data con args => exact .data con (args.imp fun _ _ => implies)

theorem refl (reflexive : ∀ type, related type type) (visible : ¬ type.IsSealed) :
    type.SameForm related type := by
  cases type with
  | base kind => exact .base kind
  | list element => exact .list (reflexive _) (reflexive _)
  | product components => exact .product (List.forall₂_same.mpr fun part _ => reflexive part)
  | data con args => exact .data con (List.forall₂_same.mpr fun arg _ => reflexive arg)
  | _ => exact absurd trivial visible

theorem trans (transitive : ∀ {first second third}, related first second → related second third →
      related first third) (first : type.SameForm related image) (second : image.SameForm related last) :
    type.SameForm related last := by
  have parts : ∀ {types images lasts : List (Ty Var)}, List.Forall₂ related types images →
      List.Forall₂ related images lasts → List.Forall₂ related types lasts := by
    intro types images lasts before after
    induction before generalizing lasts with
    | nil => exact after
    | cons isRelated _ inductionHypothesis =>
        cases after with
        | cons isFurther others => exact .cons (transitive isRelated isFurther) (inductionHypothesis others)
  cases first with
  | base kind => exact second
  | list element rest =>
      cases second with
      | list element' rest' => exact .list (transitive element element') (transitive rest rest')
  | product components =>
      cases second with
      | product components' => exact .product (parts components components')
  | data con args =>
      cases second with
      | data _ args' => exact .data con (parts args args')

theorem visible (sameForm : type.SameForm related image) (visible : ¬ type.IsSealed) :
    ¬ image.IsSealed := by
  cases sameForm with
  | base kind => exact visible
  | _ => exact not_false

end SameForm

theorem SameUpTo.differ_or_sameForm (same : SameUpTo differ type image) (visible : ¬ type.IsSealed) :
    differ type image ∨ type.SameForm (SameUpTo differ) image := by
  obtain ⟨pattern, rfl, rfl, differs⟩ := same
  cases pattern with
  | var pair => exact .inl (differs pair (.head _))
  | base kind => exact .inr (.base kind)
  | list element =>
      exact .inr (.list ⟨element, rfl, rfl, differs⟩ ⟨.list element, rfl, rfl, differs⟩)
  | product components => exact .inr (.product (forall₂_sameUpTo differs))
  | data con args => exact .inr (.data con (forall₂_sameUpTo differs))
  | _ => exact absurd trivial visible

end Places

end Ty

/-! ## Environments that show the same -/

/-- Whether payload types are related, and the second is unit only where the first is, or is open. -/
structure Ty.MayBecome (related : Ty Unit → Ty Unit → Prop) (payload image : Ty Unit) : Prop where
  isRelated : related payload image
  staysUnit : payload = .unit → image = .unit
  wasOpen : image = .unit → payload = .unit ∨ payload = .var ()

/-- Whether two constructors that are applied to arguments have one name, and the payload of the first may
become that of the second. -/
structure Constructor.MayBecome (related : Ty Unit → Ty Unit → Prop) (args images : List (Ty Unit))
    (constructor image : Constructor) : Prop where
  sameName : constructor.name = image.name
  sameArity : constructor.payload.params.length = image.payload.params.length
  payload : Ty.MayBecome related (constructor.payload.fill args) (image.payload.fill images)

namespace Environment

/-- Whether one environment shows of a root what another one shows of a second root, with related
parts. -/
inductive ShowsAlike (env other : Environment) (related : Ty Unit → Ty Unit → Prop) :
    Ty Unit → Ty Unit → Prop where
  | base (kind : BaseTy) : ShowsAlike env other related (.base kind) (.base kind)
  | list {element image : Ty Unit} : related element image → related (.list element) (.list image) →
      ShowsAlike env other related (.list element) (.list image)
  | product {components images : List (Ty Unit)} : List.Forall₂ related components images →
      ShowsAlike env other related (.product components) (.product images)
  | data (con : TyCon) {args images : List (Ty Unit)} : args.length = images.length →
      (∀ constructors, env.constructors? con = some constructors →
        ∃ others, other.constructors? con = some others ∧
          List.Forall₂ (Constructor.MayBecome related args images) constructors others) →
      ShowsAlike env other related (.data con args) (.data con images)

/-- Whether whatever one environment shows of a type, another one shows of every related type. -/
def Mimics (other env : Environment) (related : Ty Unit → Ty Unit → Prop) : Prop :=
  ∀ {type image root : Ty Unit}, related type image → env.Root type root → ¬ root.IsSealed →
    ∃ imageRoot, other.Root image imageRoot ∧ env.ShowsAlike other related root imageRoot

end Environment

/-! ## Roots of types that differ in places -/

/-- Whether two templates have as many parameters, and related arguments give related types. -/
structure Template.Mimics (related : Ty Unit → Ty Unit → Prop) (template image : Template) : Prop where
  sameArity : template.params.length = image.params.length
  fills : ∀ {args images : List (Ty Unit)}, List.Forall₂ related args images →
    related (template.fill args) (image.fill images)

theorem Template.argument_related {related : Ty Unit → Ty Unit → Prop}
    (unknown : related (.var ()) (.var ())) {args images : List (Ty Unit)}
    (each : List.Forall₂ related args images) (template : Template) (v : SchemeVar) :
    related (template.argument args v) (template.argument images v) := by
  cases v with
  | free v => exact unknown
  | bound param =>
      simp only [argument]
      rcases lookup_pairUp_of_forall₂ each template.params param with
        ⟨missing, imageMissing⟩ | ⟨arg, image, found, imageFound, isRelated⟩
      · rw [missing, imageMissing]
        exact unknown
      · rw [found, imageFound]
        exact isRelated

namespace Environment

variable {env other : Environment} {differ : Ty Unit → Ty Unit → Prop} {type image root : Ty Unit}

theorem aliasAt?_eq_none_of_sameForm {related : Ty Unit → Ty Unit → Prop}
    (sameAliases : other.abbreviates = env.abbreviates) (notAlias : env.aliasAt? root = none)
    (sameForm : root.SameForm related image) : other.aliasAt? image = none := by
  cases sameForm with
  | data con _ =>
      rw [aliasAt?_data_eq_none, sameAliases]
      exact aliasAt?_data_eq_none.mp notAlias
  | _ => rfl

/-- Types that are the same up to some places have roots of one form if this is so at these places, and
for the bodies of aliases. -/
theorem exists_root_of_places (sameAliases : other.abbreviates = env.abbreviates)
    (bodies : ∀ {con : TyCon} {template : Template}, env.body? con = some template →
      ∃ image, other.body? con = some image ∧ template.Mimics (Ty.SameUpTo differ) image)
    (places : ∀ {type image root : Ty Unit}, differ type image → env.Root type root →
      ¬ root.IsSealed →
        ∃ imageRoot, other.Root image imageRoot ∧ root.SameForm (Ty.SameUpTo differ) imageRoot)
    (same : Ty.SameUpTo differ type image) (stands : env.Root type root) (visible : ¬ root.IsSealed) :
    ∃ imageRoot, other.Root image imageRoot ∧ root.SameForm (Ty.SameUpTo differ) imageRoot := by
  obtain ⟨steps, stands⟩ := stands
  induction stands generalizing image with
  | here notAlias =>
      rcases same.differ_or_sameForm visible with differs | sameForm
      · exact places differs (root_self notAlias) visible
      · exact ⟨image, root_self (aliasAt?_eq_none_of_sameForm sameAliases notAlias sameForm), sameForm⟩
  | behind abbreviates isBody fits stands inductionHypothesis =>
      rcases same.differ_or_sameForm not_false with differs | sameForm
      · exact places differs ⟨_, .behind abbreviates isBody fits stands⟩ visible
      · cases sameForm with
        | data con argsSame =>
            obtain ⟨imageTemplate, isImageBody, mimics⟩ := bodies isBody
            obtain ⟨imageRoot, ⟨steps, imageStands⟩, sameForm⟩ :=
              inductionHypothesis (mimics.fills argsSame) visible
            have imageFits := mimics.sameArity.symm.trans (fits.trans argsSame.length_eq)
            exact ⟨imageRoot, ⟨steps + 1, .behind (sameAliases ▸ abbreviates) isImageBody imageFits
              imageStands⟩, sameForm⟩

end Environment

end TypedMatch
