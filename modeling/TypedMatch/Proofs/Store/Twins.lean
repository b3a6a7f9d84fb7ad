import TypedMatch.Proofs.Store.Minting

/-!
# Stores that grow alike

Two stores that both follow an earlier one have the same cells for what the earlier one had minted.  A type
in one of them echoes in the other if the two types are the same but for variables that have been minted
since, and these are free.  Following links and synonyms at the root, and applying a template, lead from
types that echo to types that echo.  The second store may have any number of cells more than the first, so
a walk through links that is long enough in the first is long enough in the second.
-/

set_option autoImplicit false

namespace TypedMatch

namespace Store

/-- Whether a store has kept what an earlier one had minted, and has at least as much room for links. -/
structure Follows (later base : Store) : Prop where
  bounded : later.Bounded
  nextVar_le : base.nextVar ≤ later.nextVar
  kept : ∀ v : MetaVar, v.number < base.nextVar → later.cells.get? v = base.cells.get? v
  size_le : base.cells.size ≤ later.cells.size
  linkedSize_le : base.linkedSize ≤ later.linkedSize

theorem Follows.refl {base : Store} (bounded : base.Bounded) : base.Follows base :=
  ⟨bounded, Nat.le_refl _, fun _ _ => rfl, Nat.le_refl _, Nat.le_refl _⟩

theorem Follows.mints {base later grown : Store} {count : Nat} (follows : later.Follows base)
    (mints : later.Mints count grown) : grown.Follows base where
  bounded := mints.bounded follows.bounded
  nextVar_le := Nat.le_trans follows.nextVar_le mints.extension.nextVar_le
  kept := by
    intro v old
    rw [mints.extension.kept v (Nat.lt_of_lt_of_le old follows.nextVar_le), follows.kept v old]
  size_le := by
    rw [mints.size_eq follows.bounded]
    exact Nat.le_add_right_of_le follows.size_le
  linkedSize_le := by
    rw [mints.linkedSize_eq follows.bounded]
    exact follows.linkedSize_le

/-- Whether two stores follow an earlier one, and the second has at least as much room for links. -/
structure Twins (base store other : Store) : Prop where
  follows : store.Follows base
  otherFollows : other.Follows base
  size_le : store.cells.size ≤ other.cells.size
  linkedSize_le : store.linkedSize ≤ other.linkedSize

section Twins

variable {base store other grown otherGrown : Store} {count : Nat}

theorem Follows.twins (follows : other.Follows base) (bounded : base.Bounded) :
    Twins base base other :=
  ⟨.refl bounded, follows, follows.size_le, follows.linkedSize_le⟩

theorem Twins.mints (twins : Twins base store other) (mints : store.Mints count grown)
    (otherMints : other.Mints count otherGrown) : Twins base grown otherGrown where
  follows := twins.follows.mints mints
  otherFollows := twins.otherFollows.mints otherMints
  size_le := by
    rw [mints.size_eq twins.follows.bounded, otherMints.size_eq twins.otherFollows.bounded]
    exact Nat.add_le_add_right twins.size_le count
  linkedSize_le := by
    rw [mints.linkedSize_eq twins.follows.bounded,
      otherMints.linkedSize_eq twins.otherFollows.bounded]
    exact twins.linkedSize_le

end Twins

end Store

/-! ## Renamed types -/

namespace Ty

variable {Var NewVar : Type} (rename : Var → NewVar)

theorem bare_map (type : Ty Var) : (type.map rename).bare = type.bare.map rename := by
  fun_induction bare type with
  | case1 con args expansion inductionHypothesis => exact inductionHypothesis
  | case2 type notSynonym =>
      cases type with
      | synonym con args expansion => exact absurd rfl (notSynonym con args expansion)
      | _ => rfl

mutual

theorem size_map : ∀ type : Ty Var, (type.map rename).size = type.size
  | .base _ => rfl
  | .var _ => rfl
  | .arrow optional domain codomain => by
      have first := size_map domain
      have second := size_map codomain
      simp only [map, bind, size, sizeList_map optional] at first second ⊢
      rw [first, second]
  | .list element => by
      have inner := size_map element
      simp only [map, bind, size] at inner ⊢
      rw [inner]
  | .ref content => by
      have inner := size_map content
      simp only [map, bind, size] at inner ⊢
      rw [inner]
  | .product components => by simp only [map, bind, size, sizeList_map components]
  | .data _ args => by simp only [map, bind, size, sizeList_map args]
  | .synonym _ args expansion => by
      have inner := size_map expansion
      simp only [map, bind, size, sizeList_map args] at inner ⊢
      rw [inner]
  | .record fields => by simp only [map, bind, size, sizeFields_map fields]
  | .command _ args => by simp only [map, bind, size, sizeArgs_map args]

theorem sizeList_map :
    ∀ types : List (Ty Var), sizeList (bindList (fun v => .var (rename v)) types) = sizeList types
  | [] => rfl
  | type :: rest => by
      have first := size_map type
      rw [map] at first
      simp only [bindList, sizeList, first, sizeList_map rest]

theorem sizeFields_map :
    ∀ fields : List (String × Ty Var),
      sizeFields (bindFields (fun v => .var (rename v)) fields) = sizeFields fields
  | [] => rfl
  | (_, type) :: rest => by
      have first := size_map type
      rw [map] at first
      simp only [bindFields, sizeFields, first, sizeFields_map rest]

theorem sizeArgs_map :
    ∀ args : List (ArgMode × Ty Var),
      sizeArgs (bindArgs (fun v => .var (rename v)) args) = sizeArgs args
  | [] => rfl
  | (_, type) :: rest => by
      have first := size_map type
      rw [map] at first
      simp only [bindArgs, sizeArgs, first, sizeArgs_map rest]

end

variable {rename}

theorem eq_var_of_map_eq {type : Ty Var} {renamed : NewVar} (same : type.map rename = .var renamed) :
    ∃ v, type = .var v ∧ rename v = renamed := by
  cases type with
  | var v =>
      cases same
      exact ⟨v, rfl, rfl⟩
  | _ => cases same

end Ty

namespace Store

/-! ## Types that echo -/

def old? (base : Store) (v : MetaVar) : Option MetaVar :=
  if v.number < base.nextVar then some v else none

def Recalls (base store : Store) (v : MetaVar) : Prop :=
  base.Owns [v] ∨
    base.nextVar ≤ v.number ∧ ∃ record, store.cells.get? v = some (.free record)

/-- Whether a type in one store and another type in another store are the same, but for free variables
that have been minted since. -/
structure Echoes (base store other : Store) (type image : Ty MetaVar) : Prop where
  same : type.map base.old? = image.map base.old?
  known : ∀ v ∈ type.leaves, base.Recalls store v
  imageKnown : ∀ v ∈ image.leaves, base.Recalls other v

section Echoes

variable {base store other grown otherGrown : Store} {type image : Ty MetaVar} {count : Nat}

theorem old?_of_owns {v : MetaVar} (owned : base.Owns [v]) : base.old? v = some v :=
  if_pos (owned v (.here (.head _))).1

theorem Recalls.mints {v : MetaVar} (known : base.Recalls store v) (bounded : store.Bounded)
    (mints : store.Mints count grown) : base.Recalls grown v := by
  refine known.imp_right ?_
  rintro ⟨fresh, record, stored⟩
  refine ⟨fresh, record, ?_⟩
  rw [mints.extension.kept v (bounded v (by simp [stored])), stored]

theorem Echoes.symm (echoes : Echoes base store other type image) :
    Echoes base other store image type :=
  ⟨echoes.same.symm, echoes.imageKnown, echoes.known⟩

theorem Echoes.of_owns (owned : base.Owns type.leaves) : Echoes base store other type type where
  same := rfl
  known := fun _ occurs => .inl (owned.singleton occurs)
  imageKnown := fun _ occurs => .inl (owned.singleton occurs)

theorem Echoes.mints (echoes : Echoes base store other type image) (twins : Twins base store other)
    (mints : store.Mints count grown) (otherMints : other.Mints count otherGrown) :
    Echoes base grown otherGrown type image where
  same := echoes.same
  known := fun v occurs => (echoes.known v occurs).mints twins.follows.bounded mints
  imageKnown := fun v occurs => (echoes.imageKnown v occurs).mints twins.otherFollows.bounded otherMints

theorem Echoes.part (echoes : Echoes base store other type image) {part imagePart : Ty MetaVar}
    (same : part.map base.old? = imagePart.map base.old?)
    (subset : ∀ v ∈ part.leaves, v ∈ type.leaves)
    (imageSubset : ∀ v ∈ imagePart.leaves, v ∈ image.leaves) :
    Echoes base store other part imagePart where
  same := same
  known := fun v occurs => echoes.known v (subset v occurs)
  imageKnown := fun v occurs => echoes.imageKnown v (imageSubset v occurs)

theorem eq_of_old?_eq_some {v w : MetaVar} (same : base.old? w = some v) : w = v := by
  rw [old?, Option.ite_none_right_eq_some] at same
  exact Option.some.inj same.2

theorem old?_eq_none_iff {v : MetaVar} : base.old? v = none ↔ base.nextVar ≤ v.number := by
  rw [old?, ite_eq_right_iff]
  simp

theorem Recalls.free_of_new {v : MetaVar} (known : base.Recalls store v)
    (new : base.nextVar ≤ v.number) : ∃ record, store.cells.get? v = some (.free record) := by
  rcases known with owned | ⟨_, free⟩
  · exact absurd (owned v (.here (.head _))).1 (Nat.not_lt.mpr new)
  · exact free

theorem Echoes.bare (echoes : Echoes base store other type image) :
    Echoes base store other type.bare image.bare :=
  echoes.part (by rw [← Ty.bare_map, ← Ty.bare_map, echoes.same])
    (fun _ => Ty.mem_leaves_of_mem_leaves_bare type) (fun _ => Ty.mem_leaves_of_mem_leaves_bare image)

theorem Echoes.forall₂ {types images : List (Ty MetaVar)}
    (same : Ty.bindList (fun v => .var (base.old? v)) types
      = Ty.bindList (fun v => .var (base.old? v)) images)
    (known : ∀ v ∈ Ty.leavesList types, base.Recalls store v)
    (imageKnown : ∀ v ∈ Ty.leavesList images, base.Recalls other v) :
    List.Forall₂ (Echoes base store other) types images := by
  induction types generalizing images with
  | nil =>
      cases images with
      | nil => exact .nil
      | cons image images => cases same
  | cons type types inductionHypothesis =>
      cases images with
      | nil => cases same
      | cons image images =>
          obtain ⟨firstSame, restSame⟩ := List.cons.inj same
          simp only [Ty.leavesList, List.mem_append] at known imageKnown
          exact .cons
            ⟨firstSame, fun v occurs => known v (.inl occurs),
              fun v occurs => imageKnown v (.inl occurs)⟩
            (inductionHypothesis restSame (fun v occurs => known v (.inr occurs))
              fun v occurs => imageKnown v (.inr occurs))

theorem Echoes.of_base {kind : BaseTy} (echoes : Echoes base store other (.base kind) image) :
    image = .base kind := by
  have same := echoes.same
  cases image with
  | base other =>
      cases same
      rfl
  | _ => cases same

theorem Echoes.of_list {element : Ty MetaVar}
    (echoes : Echoes base store other (.list element) image) :
    ∃ imageElement, image = .list imageElement ∧ Echoes base store other element imageElement := by
  have same := echoes.same
  cases image with
  | list imageElement =>
      exact ⟨imageElement, rfl, Ty.list.inj same, echoes.known, echoes.imageKnown⟩
  | _ => cases same

theorem Echoes.of_product {components : List (Ty MetaVar)}
    (echoes : Echoes base store other (.product components) image) :
    ∃ images, image = .product images ∧
      List.Forall₂ (Echoes base store other) components images := by
  have same := echoes.same
  cases image with
  | product images =>
      exact ⟨images, rfl, Echoes.forall₂ (Ty.product.inj same) echoes.known echoes.imageKnown⟩
  | _ => cases same

theorem Echoes.of_data {con : TyCon} {args : List (Ty MetaVar)}
    (echoes : Echoes base store other (.data con args) image) :
    ∃ images, image = .data con images ∧ List.Forall₂ (Echoes base store other) args images := by
  have same := echoes.same
  cases image with
  | data imageCon images =>
      obtain ⟨rfl, sameArgs⟩ := Ty.data.inj same
      exact ⟨images, rfl, Echoes.forall₂ sameArgs echoes.known echoes.imageKnown⟩
  | _ => cases same

/-! ## Following links -/

/-- Behind their synonyms, types that echo either both show what they are, or both are the same variable,
linked to a type that was owned before. -/
theorem Echoes.settled_bare_or_linked (twins : Twins base store other)
    (echoes : Echoes base store other type image) :
    (store.Settled type.bare ∧ other.Settled image.bare) ∨
    ∃ v target, type.bare = .var v ∧ image.bare = .var v ∧
      store.cells.get? v = some (.linked target) ∧ other.cells.get? v = some (.linked target) ∧
      base.Owns target.leaves := by
  have bareEchoes := echoes.bare
  cases bareForm : type.bare with
  | var v =>
      rw [bareForm] at bareEchoes
      obtain ⟨w, imageForm, sameOld⟩ := Ty.eq_var_of_map_eq bareEchoes.same.symm
      rw [imageForm] at bareEchoes ⊢
      rcases bareEchoes.known v (.head _) with owned | ⟨new, free⟩
      · rw [old?_of_owns owned] at sameOld
        cases eq_of_old?_eq_some sameOld
        obtain ⟨minted, known⟩ := owned v (.here (.head _))
        obtain ⟨cell, stored⟩ := Option.isSome_iff_exists.mp known
        have storeCell := (twins.follows.kept v minted).trans stored
        have otherCell := (twins.otherFollows.kept v minted).trans stored
        cases cell with
        | free record => exact .inl ⟨⟨record, storeCell⟩, record, otherCell⟩
        | linked target =>
            exact .inr ⟨v, target, rfl, rfl, storeCell, otherCell, owned.of_linked (.head _) stored⟩
      · rw [old?_eq_none_iff.mpr new, old?_eq_none_iff] at sameOld
        exact .inl ⟨free, (bareEchoes.imageKnown w (.head _)).free_of_new sameOld⟩
  | synonym con args expansion => exact absurd bareForm (Ty.bare_ne_synonym type)
  | _ =>
      refine .inl ⟨trivial, ?_⟩
      have same := bareEchoes.same
      rw [bareForm] at same
      cases imageForm : image.bare with
      | var w =>
          rw [imageForm] at same
          cases same
      | synonym con args expansion => exact absurd imageForm (Ty.bare_ne_synonym image)
      | _ => trivial

theorem Echoes.unfoldWithin (twins : Twins base store other)
    (echoes : Echoes base store other type image) {fuel more : Nat} (enough : fuel ≤ more)
    {root : Ty MetaVar} (unfolds : store.unfoldWithin fuel type = .ok root) :
    ∃ imageRoot, other.unfoldWithin more image = .ok imageRoot ∧
      Echoes base store other root imageRoot ∧ store.Settled root ∧ other.Settled imageRoot := by
  induction fuel generalizing more type image with
  | zero =>
      rcases echoes.settled_bare_or_linked twins with
        ⟨settled, imageSettled⟩ | ⟨v, target, bareForm, _, stored, _, _⟩
      · rw [unfoldWithin_of_settled settled] at unfolds
        cases unfolds
        exact ⟨_, unfoldWithin_of_settled imageSettled more, echoes.bare, settled, imageSettled⟩
      · rw [Store.unfoldWithin, bareForm] at unfolds
        simp only [stored] at unfolds
        cases unfolds
  | succ fuel inductionHypothesis =>
      rcases echoes.settled_bare_or_linked twins with
        ⟨settled, imageSettled⟩ | ⟨v, target, bareForm, imageForm, stored, imageStored, owned⟩
      · rw [unfoldWithin_of_settled settled] at unfolds
        cases unfolds
        exact ⟨_, unfoldWithin_of_settled imageSettled more, echoes.bare, settled, imageSettled⟩
      · rw [unfoldWithin_of_linked bareForm stored] at unfolds
        obtain ⟨more, rfl⟩ := Nat.exists_eq_add_of_lt enough
        rw [unfoldWithin_of_linked imageForm imageStored]
        exact inductionHypothesis (.of_owns owned) (Nat.le_add_right _ _) unfolds

/-- Types that echo are unfolded to types that echo. -/
theorem Echoes.unfold (twins : Twins base store other) (echoes : Echoes base store other type image)
    {root : Ty MetaVar} (unfolds : store.unfold type = .ok root) :
    ∃ imageRoot, other.unfold image = .ok imageRoot ∧ Echoes base store other root imageRoot ∧
      store.Settled root ∧ other.Settled imageRoot :=
  echoes.unfoldWithin twins twins.size_le unfolds

end Echoes

/-! ## Applying templates -/

/-- Whether a computation in one store succeeds with a result as wanted, and mints as many variables on the
way as another store has minted in the meantime. -/
def Mirrors {Result : Type} (other : Store) (run : Except Fault (Result × Store))
    (store grown : Store) (wanted : Result → Store → Prop) : Prop :=
  ∃ result otherGrown count, run = .ok (result, otherGrown) ∧ store.Mints count grown ∧
    other.Mints count otherGrown ∧ wanted result otherGrown

section Apply

variable {base store other grown : Store} {template : Template} {args imageArgs : List (Ty MetaVar)}

theorem pending_congr {given others : List (BoundVar × Ty MetaVar)}
    (same : ∀ param, (given.lookup param).isNone = (others.lookup param).isNone) (scheme : Scheme) :
    pending scheme given = pending scheme others := by
  have sameTests : (fun param => (given.lookup param).isNone)
      = fun param => (others.lookup param).isNone := funext same
  simp only [pending, sameTests]

theorem recalls_instance (follows : store.Follows base) (owned : base.Owns template.vars)
    (known : ∀ arg ∈ args, ∀ v ∈ arg.leaves, base.Recalls store v) (level : Level)
    (quantification : Quantification) :
    ∀ v ∈ (store.fill level quantification template args).1.leaves,
      base.Recalls (store.fill level quantification template args).2 v := by
  intro v occurs
  have mints := store.instantiateWith_mints level quantification (pairUp template.params args)
    template.scheme
  rw [fill, instantiateWith, Ty.leaves_bind, List.mem_flatMap] at occurs
  obtain ⟨source, inBody, inInstance⟩ := occurs
  cases source with
  | free w =>
      cases List.mem_singleton.mp inInstance
      exact .inl (owned.singleton (Template.mem_vars inBody))
  | bound param =>
      rw [instanceOf] at inInstance
      cases found : (pairUp template.params args).lookup param with
      | some arg =>
          rw [found] at inInstance
          have argKnown := known arg (Template.mem_of_lookup_pairUp found) v inInstance
          exact argKnown.mints follows.bounded mints
      | none =>
          rw [found] at inInstance
          cases List.mem_singleton.mp inInstance
          obtain ⟨_, free⟩ := store.free_of_pending level quantification inBody found
          exact .inr ⟨Nat.le_add_right_of_le follows.nextVar_le, free⟩

/-- A template applied to types that echo gives types that echo, with equally many new variables. -/
theorem Echoes.apply (twins : Twins base store other) (owned : base.Owns template.vars)
    (argsEcho : List.Forall₂ (Echoes base store other) args imageArgs) {level : Level}
    {quantification : Quantification} {type : Ty MetaVar}
    (applies : store.apply level quantification template args = .ok (type, grown))
    (otherLevel : Level) :
    other.Mirrors (other.apply otherLevel quantification template imageArgs) store grown
      fun image otherGrown => Echoes base grown otherGrown type image := by
  rw [Store.apply, instantiateAt] at applies
  split at applies
  · rename_i fits
    cases applies
    let given := pairUp template.params args
    let imageGiven := pairUp template.params imageArgs
    have lookups := Template.lookup_pairUp_of_forall₂ argsEcho template.params
    have samePending : pending template.scheme imageGiven = pending template.scheme given := by
      refine pending_congr ?_ template.scheme
      intro param
      rcases lookups param with ⟨missing, imageMissing⟩ | ⟨_, _, found, imageFound, _⟩
      · rw [missing, imageMissing]
      · rw [found, imageFound]
        rfl
    let instanced := other.fill otherLevel quantification template imageArgs
    have otherMints : other.Mints (pending template.scheme given).length instanced.2 :=
      samePending ▸ other.instantiateWith_mints otherLevel quantification imageGiven template.scheme
    refine ⟨instanced.1, instanced.2, _, ?_,
      store.instantiateWith_mints level quantification given template.scheme, otherMints, ?_, ?_, ?_⟩
    · rw [Store.apply, instantiateAt, if_pos (fits.trans argsEcho.length_eq)]
      rfl
    · -- Only where no type is given do the two bodies differ, and there both have a new variable.
      have new : ∀ later : Store, later.Follows base → ∀ index,
          base.old? ⟨later.nextVar + index⟩ = none := fun later follows index =>
        old?_eq_none_iff.mpr (Nat.le_add_right_of_le follows.nextVar_le)
      simp only [instanced, fill, instantiateWith, Ty.map, Ty.bind_bind]
      refine Ty.bind_congr _ ?_
      intro source _
      cases source with
      | free v => rfl
      | bound param =>
          rcases lookups param with ⟨missing, imageMissing⟩ | ⟨_, _, found, imageFound, echoes⟩
          · simp only [instanceOf, missing, imageMissing, Ty.bind, new store twins.follows,
              new other twins.otherFollows]
          · simp only [instanceOf, found, imageFound]
            exact echoes.same
    · refine recalls_instance twins.follows owned ?_ level quantification
      exact ((List.forall₂_and_left _ _).mp (argsEcho.imp fun _ _ echoes => ⟨echoes.known, echoes⟩)).1
    · refine recalls_instance twins.otherFollows owned ?_ otherLevel quantification
      exact ((List.forall₂_and_left _ _).mp
        (argsEcho.flip.imp fun _ _ echoes => ⟨echoes.imageKnown, echoes⟩)).1
  · cases applies

end Apply

end Store

end TypedMatch
