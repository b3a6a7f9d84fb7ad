import TypedMatch.Proofs.Environment.Spelling

/-!
# Declarations that spell aliases in another way

There is one place at which the spelling of an alias shows.  Whether a constructor takes a slot is decided by
its payload as it is written, without looking through aliases: only a payload that is written as unit takes
none.  Environments whose payloads are equated show the same of equated types where no payload is written as
unit in one of them and as an alias of unit in the other.
-/

set_option autoImplicit false

namespace TypedMatch

/-- Whether two constructors have one name, the same parameters, and payloads that are equated. -/
structure Constructor.Respells (env : Environment) (constructor image : Constructor) : Prop where
  sameName : constructor.name = image.name
  sameParams : constructor.payload.params = image.payload.params
  payload : env.Equates constructor.payload.body image.payload.body

theorem Constructor.Respells.equates_fill {env : Environment} {constructor image : Constructor}
    (respells : constructor.Respells env image) {args images : List (Ty Unit)}
    (argsEquated : List.Forall₂ env.Equates args images) :
    env.Equates (constructor.payload.fill args) (image.payload.fill images) := by
  have sameArgument : image.payload.argument images = constructor.payload.argument images := by
    funext v
    cases v with
    | free v => rfl
    | bound param => simp only [Template.argument, respells.sameParams]
  have mimics := constructor.payload.mimics_self (Environment.equates_isCongruence env) (.refl _)
  refine (mimics.fills argsEquated).trans ?_
  rw [Template.fill, Template.fill, sameArgument]
  exact respells.payload.bind rfl

namespace Environment

/-- Whether two environments have the same aliases, and constructors whose payloads are equated. -/
structure Respells (other env : Environment) : Prop where
  sameAliases : other.abbreviates = env.abbreviates
  sameBodies : other.body? = env.body?
  constructors : ∀ con, Option.Rel (List.Forall₂ (Constructor.Respells env)) (env.constructors? con)
    (other.constructors? con)

def OffersBoth (env other : Environment) (type image payload imagePayload : Ty Unit) : Prop :=
  ∃ con args images constructors others constructor imageConstructor,
    env.Root type (.data con args) ∧ other.Root image (.data con images) ∧
      env.constructors? con = some constructors ∧ other.constructors? con = some others ∧
      (constructor, imageConstructor) ∈ constructors.zip others ∧
      constructor.payload.fill args = payload ∧ imageConstructor.payload.fill images = imagePayload

/-- The types that are reached from two types by looking into values of both at the same places. -/
inductive Meets (env other : Environment) (type image : Ty Unit) : Ty Unit → Ty Unit → Prop where
  | self : Meets env other type image type image
  | element {found imageFound element imageElement : Ty Unit} :
      Meets env other type image found imageFound → env.Root found (.list element) →
      other.Root imageFound (.list imageElement) → Meets env other type image element imageElement
  | rest {found imageFound element imageElement : Ty Unit} :
      Meets env other type image found imageFound → env.Root found (.list element) →
      other.Root imageFound (.list imageElement) →
      Meets env other type image (.list element) (.list imageElement)
  | component {found imageFound part imagePart : Ty Unit} {components images : List (Ty Unit)} :
      Meets env other type image found imageFound → env.Root found (.product components) →
      other.Root imageFound (.product images) → (part, imagePart) ∈ components.zip images →
      Meets env other type image part imagePart
  | payload {found imageFound payload imagePayload : Ty Unit} :
      Meets env other type image found imageFound →
      env.OffersBoth other found imageFound payload imagePayload →
      Meets env other type image payload imagePayload

/-- Whether types of two environments are equated, and payloads at the same place are both written as unit
or neither is. -/
structure SpellsAlike (env other : Environment) (type image : Ty Unit) : Prop where
  equates : env.Equates type image
  sameUnits : ∀ found imageFound payload imagePayload, env.Meets other type image found imageFound →
    env.OffersBoth other found imageFound payload imagePayload → (payload = .unit ↔ imagePayload = .unit)

variable {env other : Environment} {type image found imageFound last imageLast payload imagePayload : Ty Unit}

theorem OffersBoth.symm (offered : env.OffersBoth other type image payload imagePayload) :
    other.OffersBoth env image type imagePayload payload := by
  obtain ⟨con, args, images, constructors, others, constructor, imageConstructor, stands, imageStands,
    declared, imageDeclared, among, isPayload, isImagePayload⟩ := offered
  refine ⟨con, images, args, others, constructors, imageConstructor, constructor, imageStands, stands,
    imageDeclared, declared, ?_, isImagePayload, isPayload⟩
  rw [← List.zip_swap]
  exact List.mem_map_of_mem among

theorem OffersBoth.offers (offered : env.OffersBoth other type image payload imagePayload) :
    ∃ name, env.Offers type name payload := by
  obtain ⟨con, args, _, constructors, _, constructor, _, stands, _, declared, _, among, isPayload, _⟩ :=
    offered
  exact ⟨constructor.name, con, args, constructors, constructor, stands, declared,
    (List.of_mem_zip among).1, rfl, isPayload⟩

namespace Meets

theorem trans (first : env.Meets other type image found imageFound)
    (second : env.Meets other found imageFound last imageLast) :
    env.Meets other type image last imageLast := by
  induction second with
  | self => exact first
  | element _ stands imageStands inductionHypothesis =>
      exact .element inductionHypothesis stands imageStands
  | rest _ stands imageStands inductionHypothesis => exact .rest inductionHypothesis stands imageStands
  | component _ stands imageStands among inductionHypothesis =>
      exact .component inductionHypothesis stands imageStands among
  | payload _ offered inductionHypothesis => exact .payload inductionHypothesis offered

theorem symm (meets : env.Meets other type image found imageFound) :
    other.Meets env image type imageFound found := by
  induction meets with
  | self => exact .self
  | element _ stands imageStands inductionHypothesis =>
      exact .element inductionHypothesis imageStands stands
  | rest _ stands imageStands inductionHypothesis => exact .rest inductionHypothesis imageStands stands
  | component _ stands imageStands among inductionHypothesis =>
      refine .component inductionHypothesis imageStands stands ?_
      rw [← List.zip_swap]
      exact List.mem_map_of_mem among
  | payload _ offered inductionHypothesis => exact .payload inductionHypothesis offered.symm

theorem reaches (meets : env.Meets other type image found imageFound) : env.Reaches type found := by
  induction meets with
  | self => exact .self
  | element _ stands _ inductionHypothesis => exact .element inductionHypothesis stands
  | rest _ stands _ inductionHypothesis => exact .root inductionHypothesis stands
  | component _ stands _ among inductionHypothesis =>
      exact .component inductionHypothesis stands (List.of_mem_zip among).1
  | payload _ offered inductionHypothesis =>
      obtain ⟨_, offered⟩ := offered.offers
      exact .payload inductionHypothesis offered

end Meets

theorem Respells.symm (respells : other.Respells env) : env.Respells other where
  sameAliases := respells.sameAliases.symm
  sameBodies := respells.sameBodies.symm
  constructors := by
    intro con
    have flipped : ∀ {constructors others : List Constructor},
        List.Forall₂ (Constructor.Respells env) constructors others →
          List.Forall₂ (Constructor.Respells other) others constructors := by
      intro constructors others each
      refine each.flip.imp ?_
      intro image constructor respelled
      exact ⟨respelled.sameName.symm, respelled.sameParams.symm,
        respelled.payload.symm.of_same respells.sameAliases respells.sameBodies⟩
    have listed := respells.constructors con
    generalize env.constructors? con = ours, other.constructors? con = theirs at listed
    cases listed with
    | none => exact .none
    | some each => exact .some (flipped each)

theorem SpellsAlike.symm (respells : other.Respells env) (alike : env.SpellsAlike other type image) :
    other.SpellsAlike env image type where
  equates := alike.equates.symm.of_same respells.sameAliases respells.sameBodies
  sameUnits imageFound found imagePayload payload meets offered :=
    (alike.sameUnits found imageFound payload imagePayload meets.symm offered.symm).symm

theorem SpellsAlike.of_meets (alike : env.SpellsAlike other type image)
    (meets : env.Meets other type image found imageFound) (equates : env.Equates found imageFound) :
    env.SpellsAlike other found imageFound where
  equates := equates
  sameUnits last imageLast payload imagePayload further :=
    alike.sameUnits last imageLast payload imagePayload (meets.trans further)

theorem Respells.exists_root (respells : other.Respells env) (equates : env.Equates type image)
    {root : Ty Unit} (stands : env.Root type root) (visible : ¬ root.IsSealed) :
    ∃ imageRoot, other.Root image imageRoot ∧ root.SameForm env.Equates imageRoot := by
  obtain ⟨imageRoot, imageStands, sameForm⟩ := equates.rootsFrom.1 stands visible
  exact ⟨imageRoot, imageStands.of_same respells.sameAliases respells.sameBodies, sameForm⟩

theorem Respells.forall₂_constructors (respells : other.Respells env) {con : TyCon}
    {constructors : List Constructor} (declared : env.constructors? con = some constructors) :
    ∃ others, other.constructors? con = some others ∧
      List.Forall₂ (Constructor.Respells env) constructors others := by
  have listed := respells.constructors con
  rw [declared] at listed
  generalize other.constructors? con = theirs at listed
  cases listed with
  | some each => exact ⟨_, rfl, each⟩

/-- What one environment shows of a type, another one that spells payloads in another way shows of every
type that is spelled alike. -/
theorem Respells.mimics (respells : other.Respells env) : other.Mimics env (env.SpellsAlike other) := by
  intro type image root alike stands visible
  obtain ⟨imageRoot, imageStands, sameForm⟩ := respells.exists_root alike.equates stands visible
  refine ⟨imageRoot, imageStands, ?_⟩
  cases sameForm with
  | base kind => exact .base kind
  | list element rest =>
      exact .list (alike.of_meets (.element .self stands imageStands) element)
        (alike.of_meets (.rest .self stands imageStands) rest)
  | @product components images each =>
      obtain ⟨sameLength, inZip⟩ := List.forall₂_iff_zip.mp each
      refine .product (List.forall₂_iff_zip.mpr ⟨sameLength, ?_⟩)
      intro part imagePart among
      exact alike.of_meets (.component .self stands imageStands among) (inZip among)
  | @data con args images argsEquated =>
      refine .data con argsEquated.length_eq ?_
      intro constructors declared
      obtain ⟨others, imageDeclared, each⟩ := respells.forall₂_constructors declared
      obtain ⟨sameLength, inZip⟩ := List.forall₂_iff_zip.mp each
      refine ⟨others, imageDeclared, List.forall₂_iff_zip.mpr ⟨sameLength, ?_⟩⟩
      intro constructor imageConstructor among
      have respelled := inZip among
      have offered : env.OffersBoth other type image (constructor.payload.fill args)
          (imageConstructor.payload.fill images) :=
        ⟨con, args, images, constructors, others, constructor, imageConstructor, stands, imageStands,
          declared, imageDeclared, among, rfl, rfl⟩
      have sameUnits := alike.sameUnits _ _ _ _ .self offered
      exact
        { sameName := respelled.sameName
          sameArity := congrArg List.length respelled.sameParams
          payload :=
            { isRelated := alike.of_meets (.payload .self offered) (respelled.equates_fill argsEquated)
              staysUnit := sameUnits.mp
              wasOpen := fun isUnit => .inl (sameUnits.mpr isUnit) } }

/-! ## Types that show their units -/

theorem OffersBoth.equates (respells : other.Respells env) (equates : env.Equates type image)
    (offered : env.OffersBoth other type image payload imagePayload) :
    env.Equates payload imagePayload := by
  obtain ⟨con, args, images, constructors, others, constructor, imageConstructor, stands, imageStands,
    declared, imageDeclared, among, rfl, rfl⟩ := offered
  obtain ⟨imageRoot, otherwise, sameForm⟩ := respells.exists_root equates stands not_false
  rw [otherwise.unique imageStands] at sameForm
  obtain ⟨_, isDeclared, each⟩ := respells.forall₂_constructors declared
  cases isDeclared.symm.trans imageDeclared
  cases sameForm with
  | data _ argsEquated => exact ((List.forall₂_iff_zip.mp each).2 among).equates_fill argsEquated

theorem Meets.equates (respells : other.Respells env) (equates : env.Equates type image)
    (meets : env.Meets other type image found imageFound) : env.Equates found imageFound := by
  induction meets with
  | self => exact equates
  | element _ stands imageStands inductionHypothesis =>
      obtain ⟨_, otherwise, sameForm⟩ := respells.exists_root inductionHypothesis stands not_false
      rw [otherwise.unique imageStands] at sameForm
      cases sameForm with
      | list element _ => exact element
  | rest _ stands imageStands inductionHypothesis =>
      obtain ⟨_, otherwise, sameForm⟩ := respells.exists_root inductionHypothesis stands not_false
      rw [otherwise.unique imageStands] at sameForm
      cases sameForm with
      | list _ rest => exact rest
  | component _ stands imageStands among inductionHypothesis =>
      obtain ⟨_, otherwise, sameForm⟩ := respells.exists_root inductionHypothesis stands not_false
      rw [otherwise.unique imageStands] at sameForm
      cases sameForm with
      | product each => exact (List.forall₂_iff_zip.mp each).2 among
  | payload _ offered inductionHypothesis => exact offered.equates respells inductionHypothesis

/-- Whether every payload that stands for the unit type, of the constructors that are reached from a type,
is written that way. -/
def ShowsUnits (env : Environment) (type : Ty Unit) : Prop :=
  ∀ found name payload, env.Reaches type found → env.Offers found name payload →
    env.Root payload .unit → payload = .unit

theorem ShowsUnits.eq_unit (showsUnits : other.ShowsUnits image) (respells : other.Respells env)
    (equates : env.Equates type image) (meets : env.Meets other type image found imageFound)
    (offered : env.OffersBoth other found imageFound .unit imagePayload) : imagePayload = .unit := by
  have stands := (offered.equates respells (meets.equates respells equates)).root_unit (root_self rfl)
  obtain ⟨name, imageOffered⟩ := offered.symm.offers
  exact showsUnits _ name _ meets.symm.reaches imageOffered
    (stands.of_same respells.sameAliases respells.sameBodies)

theorem Respells.spellsAlike (respells : other.Respells env) (equates : env.Equates type image)
    (showsUnits : env.ShowsUnits type) (imageShowsUnits : other.ShowsUnits image) :
    env.SpellsAlike other type image where
  equates := equates
  sameUnits := by
    intro found imageFound payload imagePayload meets offered
    constructor
    · rintro rfl
      exact imageShowsUnits.eq_unit respells equates meets offered
    · rintro rfl
      have back := equates.symm.of_same respells.sameAliases respells.sameBodies
      exact showsUnits.eq_unit respells.symm back meets.symm offered.symm

end Environment

end TypedMatch
