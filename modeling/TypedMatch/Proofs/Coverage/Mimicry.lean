import TypedMatch.Proofs.Coverage.Finds
import TypedMatch.Proofs.Coverage.Guards
import TypedMatch.Proofs.Coverage.Width
import TypedMatch.Proofs.Environment.Likeness

/-!
# Checks at related types

A relation on types, between two environments, is kept up if related types that patterns can look into have
the same form at the root, with related parts behind it.  Then a check that finds something out at types of
the first environment finds out the same at the related ones: it comes by the same heads to the same rows.
There is one exception.  The payload of a constructor may be of a type of which nothing is known and be
related to the unit type, and then the second check has a slot less.  Nothing is asked of that slot, so all
that changes is that a witness shows the constructor without a payload.
-/

set_option autoImplicit false

namespace TypedMatch

/-! ## Related witnesses and findings -/

namespace Witness

mutual

/-- Whether a witness is another one in which some constructors of this type have lost a payload of which
nothing was known, where the payload is unit. -/
def Sharpens (env : Environment) : Witness → Witness → Ty Unit → Prop
  | .cons first rest, .cons first' rest', type =>
      ∃ element, env.Root type (.list element) ∧ first.Sharpens env first' element ∧
        rest.Sharpens env rest' (.list element)
  | .tuple parts, .tuple parts', type =>
      ∃ components, env.Root type (.product components) ∧ SharpensList env parts parts' components
  | .applied name inner, .applied name' inner', type =>
      name = name' ∧ ∃ payload, env.Offers type name payload ∧ inner.Sharpens env inner' payload
  | .applied name inner, .constant name', type =>
      inner = .wildcard ∧ name = name' ∧ env.Offers type name .unit
  | witness, witness', _ => witness = witness'
termination_by structural witness => witness

def SharpensList (env : Environment) :
    List Witness → List Witness → List (Ty Unit) → Prop
  | [], [], [] => True
  | witness :: rest, witness' :: rest', type :: types =>
      witness.Sharpens env witness' type ∧ SharpensList env rest rest' types
  | _, _, _ => False

end

variable {env : Environment}

theorem Sharpens.eq_wildcard {witness : Witness} {type : Ty Unit}
    (sharpens : witness.Sharpens env .wildcard type) : witness = .wildcard := by
  cases witness <;> exact sharpens

theorem SharpensList.length_eq : ∀ {parts parts' : List Witness} {types : List (Ty Unit)},
    SharpensList env parts parts' types → parts.length = parts'.length ∧ parts.length = types.length
  | [], [], [], _ => ⟨rfl, rfl⟩
  | _ :: _, _ :: _, _ :: _, sharpens => by
      obtain ⟨sameLength, fits⟩ := sharpens.2.length_eq
      exact ⟨congrArg (· + 1) sameLength, congrArg (· + 1) fits⟩

theorem SharpensList.split {types more : List (Ty Unit)} {parts parts' : List Witness}
    (sharpens : SharpensList env parts parts' (types ++ more)) :
    SharpensList env (parts.take types.length) (parts'.take types.length) types ∧
      SharpensList env (parts.drop types.length) (parts'.drop types.length) more := by
  induction types generalizing parts parts' with
  | nil => exact ⟨trivial, sharpens⟩
  | cons type types inductionHypothesis =>
      match parts, parts' with
      | _ :: _, _ :: _ =>
          obtain ⟨first, others⟩ := inductionHypothesis sharpens.2
          exact ⟨⟨sharpens.1, first⟩, others⟩
      | [], [] | [], _ :: _ | _ :: _, [] => exact sharpens.elim

theorem sharpensList_map_wildcard {slots images : List (Ty Unit)}
    (sameLength : slots.length = images.length) :
    SharpensList env (slots.map fun _ => .wildcard) (images.map fun _ => .wildcard) images := by
  induction slots generalizing images with
  | nil =>
      cases List.length_eq_zero_iff.mp sameLength.symm
      exact trivial
  | cons slot slots inductionHypothesis =>
      cases images with
      | nil => cases sameLength
      | cons image images => exact ⟨rfl, inductionHypothesis (Nat.succ.inj sameLength)⟩

section Antisymm

variable {other : Environment}

mutual

theorem Sharpens.antisymm {witness witness' : Witness} {type image : Ty Unit}
    (sharpens : witness.Sharpens env witness' type) (back : witness'.Sharpens other witness image) :
    witness = witness' := by
  cases witness with
  | cons first rest =>
      cases witness' with
      | cons first' rest' =>
          obtain ⟨_, _, firstSharpens, restSharpens⟩ := sharpens
          obtain ⟨_, _, firstBack, restBack⟩ := back
          rw [firstSharpens.antisymm firstBack, restSharpens.antisymm restBack]
      | _ => exact sharpens
  | tuple parts =>
      cases witness' with
      | tuple parts' =>
          obtain ⟨_, _, partsSharpen⟩ := sharpens
          obtain ⟨_, _, partsBack⟩ := back
          rw [partsSharpen.antisymm partsBack]
      | _ => exact sharpens
  | applied name inner =>
      cases witness' with
      | applied name' inner' =>
          obtain ⟨sameName, _, _, innerSharpens⟩ := sharpens
          obtain ⟨_, _, _, innerBack⟩ := back
          rw [sameName, innerSharpens.antisymm innerBack]
      | constant name' => exact back.symm
      | _ => exact sharpens
  | _ => cases witness' <;> exact sharpens
termination_by structural witness

theorem SharpensList.antisymm {parts parts' : List Witness} {types images : List (Ty Unit)}
    (sharpens : SharpensList env parts parts' types) (back : SharpensList other parts' parts images) :
    parts = parts' := by
  match parts, parts', types, images with
  | [], [], [], [] => rfl
  | witness :: rest, witness' :: rest', _ :: _, _ :: _ =>
      rw [sharpens.1.antisymm back.1, sharpens.2.antisymm back.2]

end

end Antisymm

end Witness

structure Hole.Sharpens (env : Environment) (slots : List (Ty Unit)) (hole hole' : Hole) : Prop where
  sameKind : hole.kind = hole'.kind
  witnesses : Witness.SharpensList env hole.witnesses hole'.witnesses slots

/-- Whether findings about slots are others whose witnesses show more of the slots' types. -/
structure Findings.Sharpens (env : Environment) (slots : List (Ty Unit)) (findings others : Findings) :
    Prop where
  sameReached : findings.reached = others.reached
  holes : List.Forall₂ (Hole.Sharpens env slots) findings.holes others.holes

namespace Findings

variable {env : Environment} {slots : List (Ty Unit)} {findings others : Findings}

theorem sharpens_none : Sharpens env slots .none .none := ⟨rfl, .nil⟩

theorem Sharpens.append {more moreOthers : Findings} (first : Sharpens env slots findings others)
    (second : Sharpens env slots more moreOthers) :
    Sharpens env slots (findings.append more) (others.append moreOthers) where
  sameReached := by rw [Findings.append, Findings.append, first.sameReached, second.sameReached]
  holes := List.rel_append first.holes second.holes

theorem Sharpens.mapHoles {images : List (Ty Unit)} {change changeOther : Hole → Hole}
    (sharpens : Sharpens env slots findings others)
    (keeps : ∀ {hole hole' : Hole}, hole.Sharpens env slots hole' →
      (change hole).Sharpens env images (changeOther hole')) :
    Sharpens env images (findings.mapHoles change) (others.mapHoles changeOther) where
  sameReached := sharpens.sameReached
  holes := List.rel_map (fun _ _ related => keeps related) sharpens.holes

theorem sharpens_ofRows (rows : List Row) : Sharpens env [] (ofRows rows) (ofRows rows) where
  sameReached := rfl
  holes := by
    refine List.forall₂_same.mpr ?_
    intro hole among
    refine ⟨rfl, ?_⟩
    rw [witnesses_of_mem_ofRows among]
    exact trivial

theorem Sharpens.antisymm {other : Environment} {images : List (Ty Unit)}
    (sharpens : Sharpens env slots findings others) (back : Sharpens other images others findings) :
    findings = others := by
  have same : ∀ {holes holes' : List Hole}, List.Forall₂ (Hole.Sharpens env slots) holes holes' →
      List.Forall₂ (Hole.Sharpens other images) holes' holes → holes = holes' := by
    intro holes holes' each
    induction each with
    | nil => exact fun _ => rfl
    | @cons hole hole' _ _ first _ inductionHypothesis =>
        rintro (_ | ⟨firstBack, restBack⟩)
        have sameHole : hole = hole' :=
          congr (congrArg Hole.mk first.sameKind) (first.witnesses.antisymm firstBack.witnesses)
        rw [sameHole, inductionHypothesis restBack]
  exact congr (congrArg Findings.mk (same sharpens.holes back.holes)) sharpens.sameReached

end Findings

/-! ## Related heads -/

/-- Whether two heads keep the same rows, and have related parts behind them. -/
structure Head.Alike (other : Environment) (related : Ty Unit → Ty Unit → Prop) (image : Ty Unit)
    (head shown : Head Unit) : Prop where
  demands : ∀ shape, shown.demands shape = head.demands shape
  slots : List.Forall₂ related head.slots shown.slots
  rebuild : ∀ {parts parts' : List Witness}, Witness.SharpensList other parts parts' shown.slots →
    (head.rebuild parts).Sharpens other (shown.rebuild parts') image

/-- Whether the second head takes a type apart as the first takes a related type apart. -/
inductive Head.Mimics (other : Environment) (related : Ty Unit → Ty Unit → Prop) (image : Ty Unit) :
    Head Unit → Head Unit → Prop where
  | alike {head shown : Head Unit} : Head.Alike other related image head shown →
      Mimics other related image head shown
  /-- Nothing is known of the payload, which is unit. -/
  | drops {name : String} : other.Offers image name .unit → related (.var ()) .unit →
      Mimics other related image (.applied name (.var ())) (.constant name)

section Heads

variable {env other : Environment} {related : Ty Unit → Ty Unit → Prop} {type image : Ty Unit}
  {column : List Shape} {heads : List (Head Unit)} {name : String}

def Head.IsFlat : Head Unit → Prop
  | .cons _ | .tuple _ | .applied _ _ => False
  | _ => True

theorem Head.alike_of_isFlat {head : Head Unit} (isFlat : head.IsFlat) :
    Alike other related image head head where
  demands _ := rfl
  slots := by
    cases head with
    | cons _ | tuple _ | applied _ _ => exact isFlat.elim
    | _ => exact .nil
  rebuild := by
    intro parts parts' _
    cases head with
    | cons _ | tuple _ | applied _ _ => exact isFlat.elim
    | _ => rfl

theorem Head.alike_cons {element imageElement : Ty Unit} (stands : other.Root image (.list imageElement))
    (elementRelated : related element imageElement)
    (restRelated : related (.list element) (.list imageElement)) :
    Alike other related image (.cons element) (.cons imageElement) where
  demands shape := by cases shape <;> rfl
  slots := .cons elementRelated (.cons restRelated .nil)
  rebuild := by
    intro parts parts' sharpens
    obtain ⟨sameLength, complete⟩ := sharpens.length_eq
    obtain ⟨first, rest, rfl⟩ := List.length_eq_two.mp complete
    obtain ⟨first', rest', rfl⟩ := List.length_eq_two.mp (sameLength.symm.trans complete)
    exact ⟨imageElement, stands, sharpens.1, sharpens.2.1⟩

theorem Head.alike_tuple {components images : List (Ty Unit)} (stands : other.Root image (.product images))
    (componentsRelated : List.Forall₂ related components images) :
    Alike other related image (.tuple components) (.tuple images) where
  demands shape := by
    cases shape with
    | wildcard => simp only [demands, arity, componentsRelated.length_eq]
    | tuple shapes => simp only [demands, componentsRelated.length_eq]
    | _ => rfl
  slots := componentsRelated
  rebuild sharpens := ⟨images, stands, sharpens⟩

theorem Head.alike_applied {payload imagePayload : Ty Unit} (offered : other.Offers image name imagePayload)
    (payloadRelated : related payload imagePayload) :
    Alike other related image (.applied name payload) (.applied name imagePayload) where
  demands shape := by cases shape <;> rfl
  slots := .cons payloadRelated .nil
  rebuild := by
    intro parts parts' sharpens
    obtain ⟨sameLength, complete⟩ := sharpens.length_eq
    obtain ⟨inner, rfl⟩ := List.length_eq_one_iff.mp complete
    obtain ⟨inner', rfl⟩ := List.length_eq_one_iff.mp (sameLength.symm.trans complete)
    exact ⟨rfl, imagePayload, offered, sharpens.1⟩

theorem Head.mimics_ofConstructor {payload imagePayload : Ty Unit}
    (becomes : Ty.MayBecome related payload imagePayload)
    (offered : other.Offers image name imagePayload) :
    Head.Mimics other related image (ofConstructor name payload) (ofConstructor name imagePayload) := by
  by_cases isUnit : imagePayload = .unit
  · subst isUnit
    rcases becomes.wasOpen rfl with rfl | rfl
    · exact .alike (alike_of_isFlat trivial)
    · exact .drops offered becomes.isRelated
  · have wasNotUnit : payload ≠ .unit := fun wasUnit => isUnit (becomes.staysUnit wasUnit)
    rw [ofConstructor_of_ne_unit name wasNotUnit, ofConstructor_of_ne_unit name isUnit]
    exact .alike (alike_applied offered becomes.isRelated)

theorem Environment.isFlat_of_headsAt?_base {kind : BaseTy}
    (listed : env.headsAt? column (.base kind) = some heads) : ∀ head ∈ heads, head.IsFlat := by
  cases kind <;> cases listed <;> simp [Head.IsFlat, or_imp, forall_and]

theorem Environment.headsAt?_base_eq (kind : BaseTy) :
    env.headsAt? column (.base kind) = other.headsAt? column (.base kind) := by
  cases kind <;> rfl

theorem Environment.exists_headsAt?_data {con : TyCon} {args images : List (Ty Unit)}
    (sameLength : args.length = images.length)
    (become : ∀ constructors, env.constructors? con = some constructors →
      ∃ others, other.constructors? con = some others ∧
        List.Forall₂ (Constructor.MayBecome related args images) constructors others)
    (stands : other.Root image (.data con images))
    (listed : env.headsAt? column (.data con args) = some heads) :
    ∃ shown, other.headsAt? column (.data con images) = some shown ∧
      List.Forall₂ (Head.Mimics other related image) heads shown := by
  rw [headsAt?] at listed
  split at listed
  · cases listed
  · rename_i constructors declared
    obtain ⟨others, otherDeclared, each⟩ := become constructors declared
    split at listed
    · rename_i fits
      cases listed
      have sameNames : constructors.map Constructor.name = others.map Constructor.name :=
        List.forall₂_eq_eq_eq ▸ List.rel_map (fun _ _ becomes => becomes.sameName) each
      let arity (constructor : Constructor) : Nat := constructor.payload.params.length
      have sameArities : constructors.map arity = others.map arity :=
        List.forall₂_eq_eq_eq ▸ List.rel_map (fun _ _ becomes => becomes.sameArity) each
      have arities : ∀ count ∈ constructors.map arity, count = args.length :=
        List.forall_mem_map.mpr fits.2
      rw [sameArities, sameLength] at arities
      refine ⟨others.map fun constructor =>
        .ofConstructor constructor.name (constructor.payload.fill images), ?_, ?_⟩
      · rw [headsAt?, otherDeclared]
        refine if_pos ⟨?_, List.forall_mem_map.mp arities⟩
        rw [strangeCtor?, ← sameNames]
        exact fits.1
      · refine List.forall₂_map_left_iff.mpr (List.forall₂_map_right_iff.mpr ?_)
        obtain ⟨sameCount, inZip⟩ := List.forall₂_iff_zip.mp each
        refine List.forall₂_iff_zip.mpr ⟨sameCount, ?_⟩
        intro constructor otherConstructor among
        have becomes := inZip among
        rw [becomes.sameName]
        refine Head.mimics_ofConstructor becomes.payload ?_
        exact ⟨con, images, others, otherConstructor, stands, otherDeclared,
          (List.of_mem_zip among).2, rfl, rfl⟩
    · cases listed

theorem Environment.Lists.mimic (mimics : other.Mimics env related)
    (lists : env.Lists column type heads) (isRelated : related type image) :
    ∃ shown, other.Lists column image shown ∧
      List.Forall₂ (Head.Mimics other related image) heads shown := by
  obtain ⟨root, stands, listed⟩ := lists
  have visible : ¬ root.IsSealed := by
    intro isSealed
    cases (headsAt?_of_isSealed isSealed).symm.trans listed
  obtain ⟨imageRoot, imageStands, showsAlike⟩ := mimics isRelated stands visible
  cases showsAlike with
  | base kind =>
      refine ⟨heads, ⟨_, imageStands, headsAt?_base_eq kind ▸ listed⟩, List.forall₂_same.mpr ?_⟩
      exact fun head among => .alike (Head.alike_of_isFlat (isFlat_of_headsAt?_base listed head among))
  | list elementRelated restRelated =>
      cases listed
      have cells := Head.alike_cons imageStands elementRelated restRelated
      exact ⟨_, ⟨_, imageStands, rfl⟩,
        .cons (.alike cells) (.cons (.alike (Head.alike_of_isFlat trivial)) .nil)⟩
  | @product components images componentsRelated =>
      rw [headsAt?] at listed
      split at listed
      · rename_i fits
        cases listed
        rw [componentsRelated.length_eq] at fits
        exact ⟨_, ⟨_, imageStands, if_pos fits⟩,
          .cons (.alike (Head.alike_tuple imageStands componentsRelated)) .nil⟩
      · cases listed
  | data con sameLength become =>
      obtain ⟨shown, imageListed, each⟩ :=
        exists_headsAt?_data sameLength become imageStands listed
      exact ⟨shown, ⟨_, imageStands, imageListed⟩, each⟩

end Heads

/-! ## Related findings -/

section Finds

variable {env other : Environment} {related : Ty Unit → Ty Unit → Prop} {image slot : Ty Unit}
  {rows : List Row} {rest images : List (Ty Unit)} {head shown : Head Unit} {findings inner : Findings}

theorem Head.Alike.fold (alike : Head.Alike other related image head shown) {hole hole' : Hole}
    (sharpens : hole.Sharpens other (shown.slots ++ images) hole') :
    (hole.fold head).Sharpens other (image :: images) (hole'.fold shown) where
  sameKind := sharpens.sameKind
  witnesses := by
    have sameArity : head.arity = shown.slots.length :=
      head.length_slots.symm.trans alike.slots.length_eq
    obtain ⟨parts, others⟩ := sharpens.witnesses.split
    rw [Hole.fold, Hole.fold, sameArity, ← shown.length_slots]
    exact ⟨alike.rebuild parts, others⟩

/-- Where nothing is asked of a slot, a constructor with that slot as its payload is one without a
payload. -/
theorem Hole.Sharpens.fold_dropped {name : String} (offered : other.Offers image name .unit)
    {payload : Ty Unit} {hole hole' : Hole}
    (sharpens : hole.Sharpens other (.unit :: images) hole'.skip) :
    (hole.fold (.applied name payload)).Sharpens other (image :: images)
      (hole'.fold (.constant name : Head Unit)) where
  sameKind := sharpens.sameKind
  witnesses := by
    obtain ⟨kind, witnesses⟩ := hole
    cases witnesses with
    | nil => exact sharpens.witnesses.elim
    | cons witness witnesses =>
        obtain ⟨first, others⟩ := sharpens.witnesses
        exact ⟨⟨first.eq_wildcard, rfl, offered⟩, others⟩

theorem keptRows_constant (name : String) (payload : Ty Unit) (rows : List Row) :
    keptRows (.constant name : Head Unit) rows = (keptRows (.applied name payload) rows).map Row.tail := by
  rw [keptRows, keptRows, List.map_filterMap]
  congr 1
  funext row
  obtain ⟨shapes, branch, guarded⟩ := row
  cases shapes with
  | nil => rfl
  | cons first rest =>
      cases first with
      | ctor tag inner =>
          by_cases same : name = tag
          · simp [Row.under, Head.demands, same, Row.tail]
          · simp [Row.under, Head.demands, same]
      | _ => rfl

namespace Environment

theorem Finds.skips_of_var (found : env.Finds rows (.var () :: rest) findings) :
    rows.all Row.skips = true := by
  cases found with
  | spent => rfl
  | skip _ skips _ => exact skips
  | split _ lists _ => exact absurd lists (not_lists_of_root (root_self rfl) rfl _)

theorem Finds.tail_of_skips (found : env.Finds rows (slot :: rest) findings)
    (skips : rows.all Row.skips = true) :
    ∃ inner, env.Finds (rows.map Row.tail) rest inner ∧ findings = inner.mapHoles Hole.skip := by
  by_cases empty : rows = []
  · subst empty
    cases found with
    | spent =>
        cases rest with
        | nil => exact ⟨_, .done [], rfl⟩
        | cons next rest => exact ⟨_, .spent next rest, rfl⟩
    | skip nonempty _ _ => exact absurd rfl nonempty
    | split asks _ _ => cases asks
  · exact (finds_skip_iff empty skips).mp found

/-- Whether findings are found again, with sharper witnesses, at whatever types are related. -/
def Recurs (other : Environment) (related : Ty Unit → Ty Unit → Prop) (rows : List Row)
    (slots : List (Ty Unit)) (findings : Findings) : Prop :=
  ∀ {images : List (Ty Unit)}, List.Forall₂ related slots images →
    ∃ others, other.Finds rows images others ∧ findings.Sharpens other images others

theorem exists_finds_behind (mimics : Head.Mimics other related image head shown)
    (restRelated : List.Forall₂ related rest images)
    (found : env.Finds (keptRows head rows) (head.slots ++ rest) inner)
    (recurs : other.Recurs related (keptRows head rows) (head.slots ++ rest) inner) :
    ∃ others, other.Finds (keptRows shown rows) (shown.slots ++ images) others ∧
      (inner.mapHoles (Hole.fold head)).Sharpens other (image :: images)
        (others.mapHoles (Hole.fold shown)) := by
  cases mimics with
  | alike alike =>
      obtain ⟨others, again, sharpens⟩ := recurs (List.rel_append alike.slots restRelated)
      rw [← keptRows_congr fun shape _ => alike.demands shape] at again
      exact ⟨others, again, sharpens.mapHoles alike.fold⟩
  | @drops name offered varRelated =>
      obtain ⟨_, again, sharpens⟩ := recurs (.cons varRelated restRelated)
      -- The slot of the payload goes, but the rows ask nothing of it.
      obtain ⟨others, further, rfl⟩ := again.tail_of_skips found.skips_of_var
      rw [← keptRows_constant] at further
      refine ⟨others, further, sharpens.sameReached, ?_⟩
      have each := List.forall₂_map_right_iff.mp sharpens.holes
      exact List.rel_map (fun _ _ related => related.fold_dropped offered) each

theorem exists_findsBehind (restRelated : List.Forall₂ related rest images)
    {families : List (Head Unit × Findings)} {imageHeads : List (Head Unit)}
    (each : List.Forall₂ (Head.Mimics other related image) (families.map Prod.fst) imageHeads)
    (found : ∀ family ∈ families,
      env.Finds (keptRows family.1 rows) (family.1.slots ++ rest) family.2)
    (recurs : ∀ family ∈ families,
      other.Recurs related (keptRows family.1 rows) (family.1.slots ++ rest) family.2) :
    ∃ others, other.FindsBehind rows images imageHeads others ∧
      (Findings.foldAll families).Sharpens other (image :: images) others := by
  induction families generalizing imageHeads with
  | nil =>
      cases each
      exact ⟨.none, ⟨[], rfl, List.forall_mem_nil _, rfl⟩, Findings.sharpens_none⟩
  | cons family families inductionHypothesis =>
      cases each with
      | cons mimics each =>
          obtain ⟨firstFound, restFound⟩ := List.forall_mem_cons.mp found
          obtain ⟨firstRecurs, restRecurs⟩ := List.forall_mem_cons.mp recurs
          obtain ⟨first, again, sharpens⟩ :=
            exists_finds_behind mimics restRelated firstFound firstRecurs
          obtain ⟨others, behind, othersSharpen⟩ := inductionHypothesis each restFound restRecurs
          exact ⟨_, findsBehind_cons_iff.mpr ⟨first, others, again, behind, rfl⟩,
            sharpens.append othersSharpen⟩

theorem Finds.mimic (mimics : other.Mimics env related) {slots : List (Ty Unit)}
    (found : env.Finds rows slots findings) : other.Recurs related rows slots findings := by
  induction found with
  | done rows =>
      intro images slotsRelated
      cases slotsRelated
      exact ⟨_, .done rows, Findings.sharpens_ofRows rows⟩
  | spent slot rest =>
      intro images slotsRelated
      have sameLength := slotsRelated.length_eq
      cases slotsRelated with
      | @cons _ image _ restImages slotRelated restRelated =>
          exact ⟨_, .spent image restImages, rfl,
            .cons ⟨rfl, Witness.sharpensList_map_wildcard sameLength⟩ .nil⟩
  | skip nonempty skips _ inductionHypothesis =>
      intro images slotsRelated
      cases slotsRelated with
      | cons slotRelated restRelated =>
          obtain ⟨others, again, sharpens⟩ := inductionHypothesis restRelated
          refine ⟨_, .skip nonempty skips again, sharpens.mapHoles ?_⟩
          exact fun related => ⟨related.sameKind, rfl, related.witnesses⟩
  | @split rows slot rest families asks lists found inductionHypothesis =>
      intro images slotsRelated
      cases slotsRelated with
      | cons slotRelated restRelated =>
          obtain ⟨shown, imageLists, each⟩ := lists.mimic mimics slotRelated
          obtain ⟨others, behind, sharpens⟩ :=
            exists_findsBehind restRelated each found inductionHypothesis
          exact ⟨others, (finds_split_iff asks imageLists).mpr behind, sharpens⟩

end Environment

end Finds

/-! ## Related listings -/

section Listings

variable {env : Environment} {type : Ty Unit} {findings others : Findings} {limit : Nat}
  {witnesses witnesses' : List Witness}

/-- Whether as many witnesses are listed, and left out, and those listed are related one by one. -/
structure Listing.Sharpens (env : Environment) (type : Ty Unit) (listing other : Listing) : Prop where
  kept : List.Forall₂ (fun witness witness' => witness.Sharpens env witness' type) listing.kept other.kept
  sameOmitted : listing.omitted = other.omitted

theorem Hole.Sharpens.head {hole hole' : Hole} (sharpens : hole.Sharpens env [type] hole') :
    Option.Rel (fun witness witness' => witness.Sharpens env witness' type) hole.witnesses.head?
      hole'.witnesses.head? := by
  obtain ⟨sameLength, complete⟩ := sharpens.witnesses.length_eq
  obtain ⟨witness, single⟩ := List.length_eq_one_iff.mp complete
  obtain ⟨witness', single'⟩ := List.length_eq_one_iff.mp (sameLength.symm.trans complete)
  have related := sharpens.witnesses
  rw [single, single'] at related ⊢
  exact .some related.1

theorem Findings.Sharpens.witnessesOf (sharpens : findings.Sharpens env [type] others)
    (kind : HoleKind) :
    List.Forall₂ (fun witness witness' => witness.Sharpens env witness' type)
      (Verdict.witnessesOf kind findings) (Verdict.witnessesOf kind others) := by
  refine List.rel_filterMap (fun _ _ related => related.head) (List.rel_filter ?_ sharpens.holes)
  intro hole hole' related
  simp only [related.sameKind]

theorem Listing.sharpens_ofWitnesses (distinct : witnesses.Nodup) (distinct' : witnesses'.Nodup)
    (related : List.Forall₂ (fun witness witness' => witness.Sharpens env witness' type)
      witnesses witnesses') :
    Sharpens env type (ofWitnesses limit witnesses) (ofWitnesses limit witnesses') := by
  rw [ofWitnesses, ofWitnesses, eraseDups_of_nodup distinct, eraseDups_of_nodup distinct']
  exact ⟨List.forall₂_take limit related, congrArg (· - limit) related.length_eq⟩

theorem Listing.Sharpens.isEmpty_eq {listing other : Listing} (sharpens : listing.Sharpens env type other) :
    listing.isEmpty = other.isEmpty := by
  rw [isEmpty, isEmpty, sharpens.sameOmitted, Bool.eq_iff_iff]
  simp only [Bool.and_eq_true, List.isEmpty_iff_length_eq_zero, sharpens.kept.length_eq]

end Listings

end TypedMatch
