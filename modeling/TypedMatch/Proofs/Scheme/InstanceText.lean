import TypedMatch.Proofs.Scheme.Marks
import TypedMatch.Proofs.Ty.Unmarking

/-!
# Texts of instances

An instance reads like its scheme without the marks.  In both texts a variable takes the name of the position
at which it first shows, and the new variables of the instance are neither each other's doubles nor among those
that the scheme leaves to the store.  So as long as no variable behind an instance is linked, further instances
of the scheme have the same text, and share with it only what stayed free in the scheme.
-/

set_option autoImplicit false

namespace TypedMatch

namespace Ty

theorem named_map_var {rename : SchemeVar → SchemeVar} {type : Ty ShownVar}
    (injective : ∀ shown ∈ type.shown, ∀ other ∈ type.shown,
      rename shown.var = rename other.var → shown.var = other.var) :
    (type.map fun shown => (⟨rename shown.var, shown.weak⟩ : ShownVar)).named = type.named := by
  let vars := type.shown.map ShownVar.var
  have renamedVars : (type.map fun shown => (⟨rename shown.var, shown.weak⟩ : ShownVar)).shown.map ShownVar.var
      = vars.map rename := by
    rw [shown_map, List.map_map, List.map_map]
    rfl
  have injectiveOnVars : ∀ v ∈ vars, ∀ w ∈ vars, rename v = rename w → v = w := by
    intro v vShown w wShown
    obtain ⟨shown, isShown, rfl⟩ := List.mem_map.mp vShown
    obtain ⟨other, otherShown, rfl⟩ := List.mem_map.mp wShown
    exact injective shown isShown other otherShown
  rw [named_eq_text, named_eq_text, renamedVars, text_map]
  apply text_congr
  intro shown isShown
  have among : shown.var ∈ vars := List.mem_map_of_mem isShown
  exact congrArg (fun position => "'" ++ ShownVar.word (shown.weak, position))
    (firstPosition_map vars injectiveOnVars among)

theorem named_unmarked {type : Ty ShownVar} (tickless : ∀ name ∈ type.names, '\'' ∉ name.toList) :
    (type.remarked fun _ => false).named = unmarkText type.named := by
  let position (shown : ShownVar) : Nat := firstPosition (type.shown.map ShownVar.var) shown.var
  have each (shown : ShownVar) : Unmarks ("'" ++ ShownVar.word (shown.weak, position shown))
      ("'" ++ ShownVar.word (false, position shown)) := .of_var shown.weak (position shown)
  rw [named_eq_text, named_eq_text, vars_remarked, remarked, text_map]
  exact (unmarks_text each .whole type tickless).unmarkText_eq.symm

end Ty

/-- The body of a scheme with a variable of a store in the place of each variable that the scheme owns. -/
def Scheme.placed (scheme : Scheme) (place : BoundVar → MetaVar) : Ty MetaVar :=
  scheme.body.map fun
    | .bound param => place param
    | .free v => v

namespace Store

variable {store later : Store} {scheme : Scheme} {place : BoundVar → MetaVar}

theorem mem_leaves_placed {v : MetaVar} : v ∈ (scheme.placed place).leaves ↔
    (∃ param, .bound param ∈ scheme.body.leaves ∧ v = place param) ∨ .free v ∈ scheme.body.leaves := by
  rw [Scheme.placed, Ty.leaves_map, List.mem_map]
  constructor
  · rintro ⟨x, occurs, rfl⟩
    cases x with
    | bound param => exact .inl ⟨param, occurs, rfl⟩
    | free w => exact .inr occurs
  · rintro (⟨param, occurs, rfl⟩ | occurs)
    · exact ⟨_, occurs, rfl⟩
    · exact ⟨_, occurs, rfl⟩

/-! ## Variables in the places of owned ones -/

/-- Whether a store has variables without links for those that a scheme owns, no two alike and none of them
behind what the scheme left free, and follows links from there as an earlier store does. -/
structure Places (later store : Store) (scheme : Scheme) (place : BoundVar → MetaVar) : Prop where
  target_place : ∀ {param}, .bound param ∈ scheme.body.leaves →
    later.target (place param) = .var (place param)
  target_free : ∀ {v}, .free v ∈ scheme.body.leaves → later.target v = store.target v
  injective : ∀ {param other}, .bound param ∈ scheme.body.leaves → place param = place other → param = other
  apart : ∀ {param v}, .bound param ∈ scheme.body.leaves → .free v ∈ scheme.body.leaves →
    place param ∉ (store.target v).leaves

def nameOf (place : BoundVar → MetaVar) : SchemeVar → SchemeVar
  | .bound param => .free (place param)
  | .free v => .free v

theorem Places.unmarked_zonk (places : later.Places store scheme place) :
    unmarked (later.zonk (scheme.placed place))
      = (store.withMarks (fun _ => false) scheme).map fun shown => ⟨nameOf place shown.var, shown.weak⟩ := by
  rw [unmarked, zonk, Scheme.placed, withMarks, Ty.map, Ty.map, Ty.map, Ty.bind_bind, Ty.bind_bind,
    Ty.bind_bind]
  apply Ty.bind_congr
  intro v occurs
  cases v with
  | bound param =>
      simp only [Ty.bind, places.target_place occurs]
      rfl
  | free v =>
      simp only [Ty.bind, places.target_free occurs, Ty.map, Ty.bind_bind]
      rfl

theorem Places.named_eq (places : later.Places store scheme place) :
    (unmarked (later.zonk (scheme.placed place))).named
      = (store.withMarks (fun _ => false) scheme).named := by
  rw [places.unmarked_zonk]
  apply Ty.named_map_var
  intro shown isShown other otherShown same
  have occurs {v : SchemeVar} (inShown : v ∈ scheme.body.shown) : v ∈ scheme.body.leaves :=
    (Ty.shown_sublist _).subset inShown
  have behind {v w : MetaVar} (shows : w ∈ (store.target v).shown) : w ∈ (store.target v).leaves :=
    (Ty.shown_sublist _).subset shows
  rcases mem_shown_withMarks.mp isShown with ⟨param, inBody, rfl⟩ | ⟨v, w, inBody, shows, rfl⟩ <;>
    rcases mem_shown_withMarks.mp otherShown with ⟨param', inBody', rfl⟩ | ⟨v', w', inBody', shows', rfl⟩
  · exact congrArg SchemeVar.bound (places.injective (occurs inBody) (SchemeVar.free.inj same))
  · rw [← SchemeVar.free.inj same] at shows'
    exact absurd (behind shows') (places.apart (occurs inBody) (occurs inBody'))
  · rw [SchemeVar.free.inj same] at shows
    exact absurd (behind shows) (places.apart (occurs inBody') (occurs inBody))
  · exact same

theorem Places.mem_leaves_zonk (places : later.Places store scheme place) {v : MetaVar} :
    v ∈ (later.zonk (scheme.placed place)).leaves ↔
      (∃ param, .bound param ∈ scheme.body.leaves ∧ v = place param) ∨
      ∃ w, .free w ∈ scheme.body.leaves ∧ v ∈ (store.target w).leaves := by
  rw [leaves_zonk, List.mem_flatMap]
  constructor
  · rintro ⟨u, among, behind⟩
    rcases mem_leaves_placed.mp among with ⟨param, occurs, rfl⟩ | occurs
    · rw [places.target_place occurs] at behind
      exact .inl ⟨param, occurs, List.mem_singleton.mp behind⟩
    · rw [places.target_free occurs] at behind
      exact .inr ⟨u, occurs, behind⟩
  · rintro (⟨param, occurs, rfl⟩ | ⟨w, occurs, behind⟩)
    · refine ⟨_, mem_leaves_placed.mpr (.inl ⟨param, occurs, rfl⟩), ?_⟩
      rw [places.target_place occurs]
      exact .head _
    · refine ⟨w, mem_leaves_placed.mpr (.inr occurs), ?_⟩
      rw [places.target_free occurs]
      exact behind

/-! ## Instances -/

theorem instantiate_eq_placed (store : Store) (level : Level) (quantification : Quantification)
    (scheme : Scheme) :
    (store.instantiate level quantification scheme).1 = scheme.placed (store.instanceVar [] scheme) := by
  apply Ty.bind_congr
  intro v _
  cases v with
  | bound param => rfl
  | free v => rfl

theorem instantiate_extends (store : Store) (level : Level) (quantification : Quantification)
    (scheme : Scheme) : (store.instantiate level quantification scheme).2.Extends store :=
  store.instantiateWith_extends level quantification [] scheme

section Instance

variable (level : Level) (quantification : Quantification)

theorem owns_instance (owned : store.Owns (scheme.body.leaves.filterMap SchemeVar.free?)) :
    (store.instantiate level quantification scheme).2.Owns
      (store.instantiate level quantification scheme).1.leaves := by
  have growth := store.instantiate_extends level quantification scheme
  rw [instantiate_eq_placed]
  apply owns_of_forall
  intro v occurs
  rcases mem_leaves_placed.mp occurs with ⟨param, inBody, rfl⟩ | inBody
  · have missing : ([] : List (BoundVar × Ty MetaVar)).lookup param = none := rfl
    obtain ⟨minted, record, stored⟩ := store.free_of_pending level quantification inBody missing
    exact owns_singleton_of_free minted stored
  · exact (growth.owns owned).singleton (SchemeVar.mem_filterMap_free?.mpr inBody)

theorem owns_free_of_owns_instance
    (laterOwned : later.Owns (store.instantiate level quantification scheme).1.leaves) :
    later.Owns (scheme.body.leaves.filterMap SchemeVar.free?) := by
  rw [instantiate_eq_placed] at laterOwned
  apply laterOwned.mono
  intro v among
  exact mem_leaves_placed.mpr (.inr (SchemeVar.mem_filterMap_free?.mp among))

theorem places_instance (acyclic : store.Acyclic)
    (owned : store.Owns (scheme.body.leaves.filterMap SchemeVar.free?)) (laterAcyclic : later.Acyclic)
    (kept : later.KeepsLinks (store.instantiate level quantification scheme).2
      (store.instantiate level quantification scheme).1.leaves) :
    later.Places store scheme (store.instanceVar [] scheme) := by
  have growth := store.instantiate_extends level quantification scheme
  rw [instantiate_eq_placed] at kept
  have ownedVar {v : MetaVar} (occurs : .free v ∈ scheme.body.leaves) : store.Owns [v] :=
    owned.singleton (SchemeVar.mem_filterMap_free?.mpr occurs)
  have isPending {param : BoundVar} (occurs : .bound param ∈ scheme.body.leaves) : param ∈ pending scheme [] :=
    mem_pending occurs rfl
  refine ⟨?_, ?_, fun occurs => instanceVar_inj (isPending occurs), ?_⟩
  · -- A new variable was free at first, and no link has come in since.
    intro param occurs
    have isLeaf : store.instanceVar [] scheme param
        ∈ (scheme.placed (store.instanceVar [] scheme)).leaves :=
      mem_leaves_placed.mpr (.inl ⟨param, occurs, rfl⟩)
    have stored := store.get?_instanceVar level quantification (isPending occurs)
    apply target_of_not_linked
    intro target linked
    have wasLinked := (kept _ (.here isLeaf) target).mp linked
    rw [instantiate, stored] at wasLinked
    cases wasLinked
  · intro v occurs
    have isLeaf : v ∈ (scheme.placed (store.instanceVar [] scheme)).leaves :=
      mem_leaves_placed.mpr (.inr occurs)
    rw [(kept.singleton isLeaf).target_eq (growth.acyclic acyclic) laterAcyclic]
    exact target_of_kept acyclic (growth.acyclic acyclic) growth.kept (ownedVar occurs)
  · -- Links lead from what the store owned before to what it owned before.
    intro param v _ occurs behind
    have minted := (ownedVar occurs _ (meets_of_mem_zonkVar behind)).1
    have fresh : store.nextVar ≤ (store.instanceVar [] scheme param).number := Nat.le_add_right _ _
    omega

/-- An instance is written like the scheme without marks until a variable behind it is linked. -/
theorem typeText_instance (acyclic : store.Acyclic)
    (owned : store.Owns (scheme.body.leaves.filterMap SchemeVar.free?)) (laterAcyclic : later.Acyclic)
    (laterOwned : later.Owns (store.instantiate level quantification scheme).1.leaves)
    (kept : later.KeepsLinks (store.instantiate level quantification scheme).2
      (store.instantiate level quantification scheme).1.leaves) :
    later.typeText (store.instantiate level quantification scheme).1
      = .ok (store.withMarks (fun _ => false) scheme).named := by
  have places := places_instance level quantification acyclic owned laterAcyclic kept
  rw [typeText_eq_named laterAcyclic laterOwned, instantiate_eq_placed, places.named_eq]

end Instance

theorem withMarks_congr {marks otherMarks : MetaVar → Bool}
    (same : ∀ v, .free v ∈ scheme.body.leaves → later.target v = store.target v ∧ otherMarks v = marks v) :
    later.withMarks otherMarks scheme = store.withMarks marks scheme := by
  apply Ty.bind_congr
  intro v occurs
  cases v with
  | bound param => rfl
  | free v =>
      obtain ⟨sameTarget, sameMarks⟩ := same v occurs
      simp only [sameTarget, sameMarks]

theorem withMarks_false (store : Store) (marks : MetaVar → Bool) (scheme : Scheme) :
    store.withMarks (fun _ => false) scheme = (store.withMarks marks scheme).remarked fun _ => false := by
  rw [remarked_withMarks]
  rfl

theorem isLinked_iff {v : MetaVar} :
    store.isLinked v = true ↔ ∃ target, store.cells.get? v = some (.linked target) := by
  rw [isLinked]
  split
  · rename_i target stored
    exact iff_of_true rfl ⟨target, stored⟩
  · rename_i notLinked
    refine iff_of_false Bool.false_ne_true ?_
    rintro ⟨target, stored⟩
    exact notLinked target stored

theorem schemeText_of_keepsLinks (acyclic : store.Acyclic) (laterAcyclic : later.Acyclic)
    (owned : store.Owns (scheme.body.leaves.filterMap SchemeVar.free?))
    (laterOwned : later.Owns (scheme.body.leaves.filterMap SchemeVar.free?))
    (kept : later.KeepsLinks store (scheme.body.leaves.filterMap SchemeVar.free?)) :
    later.schemeText scheme = store.schemeText scheme := by
  have same : later.withMarks (fun v => !later.isLinked v) scheme
      = store.withMarks (fun v => !store.isLinked v) scheme := by
    apply withMarks_congr
    intro v occurs
    have among := SchemeVar.mem_filterMap_free?.mpr occurs
    refine ⟨(kept.singleton among).target_eq acyclic laterAcyclic, ?_⟩
    have sameLinks : later.isLinked v = true ↔ store.isLinked v = true := by
      simp only [isLinked_iff, kept v (.here among)]
    exact congrArg not (Bool.eq_iff_iff.mpr sameLinks)
  rw [schemeText_eq_named laterAcyclic laterOwned, schemeText_eq_named acyclic owned, same]

/-- Between an instance and a later one no variables are common but those behind what stayed free in the scheme,
as long as no variable behind the first one is linked. -/
theorem mem_instances_iff (acyclic : store.Acyclic)
    (owned : store.Owns (scheme.body.leaves.filterMap SchemeVar.free?))
    (level otherLevel : Level) (quantification otherQuantification : Quantification)
    (laterAcyclic : later.Acyclic)
    (laterOwned : later.Owns (store.instantiate level quantification scheme).1.leaves)
    (kept : later.KeepsLinks (store.instantiate level quantification scheme).2
      (store.instantiate level quantification scheme).1.leaves) (v : MetaVar) :
    let other := (later.instantiate otherLevel otherQuantification scheme).1
    let last := (later.instantiate otherLevel otherQuantification scheme).2
    v ∈ (last.zonk (store.instantiate level quantification scheme).1).leaves ∧ v ∈ (last.zonk other).leaves ↔
      ∃ w, .free w ∈ scheme.body.leaves ∧ v ∈ (store.target w).leaves := by
  intro other last
  have growth : last.Extends later := later.instantiate_extends otherLevel otherQuantification scheme
  have lastAcyclic : last.Acyclic := growth.acyclic laterAcyclic
  have keptLast := kept.trans (keepsLinks_of_kept growth.kept laterOwned)
  have places := places_instance level quantification acyclic owned lastAcyclic keptLast
  have otherPlaces := places_instance otherLevel otherQuantification laterAcyclic
    (owns_free_of_owns_instance level quantification laterOwned) lastAcyclic (.refl _ _)
  have sameTarget {w : MetaVar} (occurs : .free w ∈ scheme.body.leaves) :
      later.target w = store.target w :=
    (otherPlaces.target_free occurs).symm.trans (places.target_free occurs)
  have otherEq : other = scheme.placed (later.instanceVar [] scheme) := instantiate_eq_placed ..
  rw [instantiate_eq_placed] at laterOwned ⊢
  rw [otherEq, places.mem_leaves_zonk, otherPlaces.mem_leaves_zonk]
  constructor
  · rintro ⟨⟨param, occurs, rfl⟩ | behind, inOther⟩
    · rcases inOther with ⟨otherParam, _, same⟩ | ⟨w, isFree, behind⟩
      · -- The later instance is made in a store that knows the new variables of the first one.
        have minted := (laterOwned _ (.here (mem_leaves_placed.mpr (.inl ⟨param, occurs, rfl⟩)))).1
        have fresh : later.nextVar ≤ (later.instanceVar [] scheme otherParam).number :=
          Nat.le_add_right _ _
        rw [← same] at fresh
        omega
      · rw [sameTarget isFree] at behind
        exact ⟨w, isFree, behind⟩
    · exact behind
  · rintro ⟨w, isFree, behind⟩
    refine ⟨.inr ⟨w, isFree, behind⟩, .inr ⟨w, isFree, ?_⟩⟩
    rw [sameTarget isFree]
    exact behind

/-- An instance is written like its scheme with the marks taken out, if no name or label has a tick.  As long
as no variable behind it is linked, any further instance is written in the same way, and once links have been
followed the two share just the variables behind what stayed free in the scheme. -/
theorem instances_read_alike (acyclic : store.Acyclic)
    (owned : store.Owns (scheme.body.leaves.filterMap SchemeVar.free?))
    (tickless : ∀ name ∈ (store.zonkBody scheme.body).names, '\'' ∉ name.toList)
    (level : Level) (quantification : Quantification) :
    ∃ text type grown, store.instantiate level quantification scheme = (type, grown) ∧
      store.schemeText scheme = .ok text ∧ grown.schemeText scheme = .ok text ∧
      grown.typeText type = .ok (unmarkText text) ∧
      ∀ later : Store, later.Acyclic → later.Owns type.leaves → later.KeepsLinks grown type.leaves →
        ∀ (otherLevel : Level) (otherQuantification : Quantification),
          ∃ other last, later.instantiate otherLevel otherQuantification scheme = (other, last) ∧
            last.typeText type = .ok (unmarkText text) ∧ last.typeText other = .ok (unmarkText text) ∧
            ∀ v, v ∈ (last.zonk type).leaves ∧ v ∈ (last.zonk other).leaves ↔
              ∃ w, .free w ∈ scheme.body.leaves ∧ v ∈ (store.target w).leaves := by
  let type := (store.instantiate level quantification scheme).1
  let grown := (store.instantiate level quantification scheme).2
  have growth : grown.Extends store := store.instantiate_extends level quantification scheme
  have grownAcyclic : grown.Acyclic := growth.acyclic acyclic
  have grownOwned : grown.Owns type.leaves := owns_instance level quantification owned
  let marks (v : MetaVar) : Bool := !store.isLinked v
  let text := (store.withMarks marks scheme).named
  have plain : (store.withMarks (fun _ => false) scheme).named = unmarkText text := by
    rw [withMarks_false store marks]
    apply Ty.named_unmarked
    rwa [← map_var_withMarks store marks, Ty.names_map] at tickless
  have written : store.schemeText scheme = .ok text := schemeText_eq_named acyclic owned
  refine ⟨text, type, grown, rfl, written, ?_, ?_, ?_⟩
  · rw [← written]
    exact schemeText_of_keepsLinks acyclic grownAcyclic owned (growth.owns owned)
      (keepsLinks_of_kept growth.kept owned)
  · rw [← plain]
    exact typeText_instance level quantification acyclic owned grownAcyclic grownOwned (.refl _ _)
  · intro later laterAcyclic laterOwned kept otherLevel otherQuantification
    let other := (later.instantiate otherLevel otherQuantification scheme).1
    let last := (later.instantiate otherLevel otherQuantification scheme).2
    have lastGrowth : last.Extends later := later.instantiate_extends otherLevel otherQuantification scheme
    refine ⟨other, last, rfl, ?_, ?_, mem_instances_iff acyclic owned level otherLevel quantification
      otherQuantification laterAcyclic laterOwned kept⟩
    · rw [← plain]
      exact typeText_instance level quantification acyclic owned (lastGrowth.acyclic laterAcyclic)
        (lastGrowth.owns laterOwned) (kept.trans (keepsLinks_of_kept lastGrowth.kept laterOwned))
    · have places := places_instance level quantification acyclic owned laterAcyclic kept
      have sameScheme : later.withMarks (fun _ => false) scheme = store.withMarks (fun _ => false) scheme :=
        withMarks_congr fun _ occurs => ⟨places.target_free occurs, rfl⟩
      have freeOwned := owns_free_of_owns_instance level quantification laterOwned
      rw [← plain, ← sameScheme]
      exact typeText_instance otherLevel otherQuantification laterAcyclic freeOwned
        (lastGrowth.acyclic laterAcyclic) (owns_instance otherLevel otherQuantification freeOwned)
        (.refl _ _)

/-- Twice a variable of its own, a variable that has been linked, and the variable behind the link. -/
def sharedScheme : Scheme :=
  ⟨[⟨⟨0⟩, .any⟩],
    .product [.var (.bound ⟨0⟩), .var (.free ⟨3⟩), .var (.free ⟨1⟩), .var (.bound ⟨0⟩)]⟩

/-- Two instances in a row are written alike, without the mark, and share the variable behind the link. -/
theorem sharedScheme_instances :
    ∃ type grown other last, tangledStore.instantiate .bottom .allowed sharedScheme = (type, grown) ∧
      grown.instantiate ⟨1⟩ .forbidden sharedScheme = (other, last) ∧
      tangledStore.schemeText sharedScheme = .ok "'a * 'b list * '_b * 'a" ∧
      last.typeText type = .ok "'a * 'b list * 'b * 'a" ∧
      last.typeText other = .ok "'a * 'b list * 'b * 'a" ∧
      ∀ v, v ∈ (last.zonk type).leaves ∧ v ∈ (last.zonk other).leaves ↔ v = ⟨1⟩ := by
  have closed : tangledStore.Closed := by decide
  have owned : tangledStore.Owns (sharedScheme.body.leaves.filterMap SchemeVar.free?) :=
    closed.owns (by decide)
  have growth := tangledStore.instantiate_extends .bottom .allowed sharedScheme
  have instanceOwned := owns_instance .bottom .allowed owned
  obtain ⟨text, type, grown, made, written, _, _, further⟩ :=
    instances_read_alike tangledStore_acyclic owned (by decide) .bottom .allowed
  have isText : tangledStore.schemeText sharedScheme = .ok "'a * 'b list * '_b * 'a" := by decide
  rw [isText] at written
  obtain rfl := Except.ok.inj written
  rw [made] at growth instanceOwned
  obtain ⟨other, last, madeOther, typeWritten, otherWritten, shared⟩ :=
    further grown (growth.acyclic tangledStore_acyclic) instanceOwned (.refl _ _) ⟨1⟩ .forbidden
  refine ⟨type, grown, other, last, made, madeOther, isText, typeWritten, otherWritten, ?_⟩
  intro v
  rw [shared]
  constructor
  · rintro ⟨w, occurs, behind⟩
    have isFree : w = ⟨3⟩ ∨ w = ⟨1⟩ := by
      simpa [sharedScheme, Ty.leaves, Ty.leavesList] using occurs
    rcases isFree with rfl | rfl <;> exact List.mem_singleton.mp behind
  · rintro rfl
    exact ⟨⟨1⟩, by decide, by decide⟩

end Store

end TypedMatch
