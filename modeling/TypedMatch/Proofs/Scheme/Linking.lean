import Mathlib.Data.Finset.Lattice.Fold
import Mathlib.Data.Set.Function
import TypedMatch.Proofs.Scheme.Owned
import TypedMatch.Proofs.Scheme.Resemblance

/-!
# Given types and linked variables

There are two ways to give types to some of the variables that a scheme owns: to put the types in while the
scheme is instantiated, or to instantiate it with new variables throughout and to link those of the
parameters afterwards.  The second way mints more variables, in another order, and looks at the kinds of the
parameters too.  Once links are followed, the two instances are the same but for the numbers of their new
variables, and so are the kinds of these.
-/

set_option autoImplicit false

namespace TypedMatch

theorem Scheme.mentions_of_kind {scheme : Scheme} {param : BoundVar} {x : SchemeVar}
    (occurs : x ∈ (scheme.kindOf param).leaves) : scheme.Mentions x := by
  rw [kindOf] at occurs
  split at occurs
  · rename_i entry found
    exact .inr ⟨entry, List.mem_of_find?_eq_some found, occurs⟩
  · cases occurs

namespace Store

/-- Whether a variable occurs in the part of a scheme that an instance with given types looks at. -/
def Scanned (scheme : Scheme) (given : List (BoundVar × Ty MetaVar)) (x : SchemeVar) : Prop :=
  x ∈ scheme.body.leaves ∨ ∃ owner ∈ pending scheme given, x ∈ (scheme.kindOf owner).leaves

/-! ## Linking parameters -/

def linkAll (store : Store) (links : List (MetaVar × Ty MetaVar)) : Store :=
  links.foldl (fun later entry => later.link entry.1 entry.2) store

/-- The links that give the parameters of an instance their arguments.  A parameter that the instance has no
variable for gets none. -/
def paramLinks (store : Store) (scheme : Scheme) (params : List BoundVar) (args : List (Ty MetaVar)) :
    List (MetaVar × Ty MetaVar) :=
  ((params.zip args).filter fun entry => entry.1 ∈ pending scheme []).map
    fun entry => (store.instanceVar [] scheme entry.1, entry.2)

def linkedInstance (store : Store) (level : Level) (quantification : Quantification)
    (params : List BoundVar) (args : List (Ty MetaVar)) (scheme : Scheme) : Store :=
  (store.instantiate level quantification scheme).2.linkAll (store.paramLinks scheme params args)

/-- Whether arguments are fit for the parameters of a scheme, and all variables of both belong to a store
without circular links. -/
structure Fills (store : Store) (scheme : Scheme) (params : List BoundVar)
    (args : List (Ty MetaVar)) : Prop where
  acyclic : store.Acyclic
  schemeHeld : ∀ v, scheme.Mentions (.free v) → store.Holds (fun _ => true) [v]
  argsHeld : ∀ arg ∈ args, store.Holds (fun _ => true) arg.leaves
  distinct : params.Nodup
  fits : params.length = args.length

variable {store : Store} {links : List (MetaVar × Ty MetaVar)} {scheme : Scheme}
  {params : List BoundVar} {args : List (Ty MetaVar)} {level : Level}
  {quantification : Quantification}

theorem linkAll_cons (entry : MetaVar × Ty MetaVar) :
    store.linkAll (entry :: links) = (store.link entry.1 entry.2).linkAll links := rfl

theorem get?_linkAll_of_not_mem {v : MetaVar} (notLinked : v ∉ links.map Prod.fst) :
    (store.linkAll links).cells.get? v = store.cells.get? v := by
  induction links generalizing store with
  | nil => rfl
  | cons entry rest inductionHypothesis =>
      rw [List.map_cons, List.mem_cons, not_or] at notLinked
      rw [linkAll_cons, inductionHypothesis notLinked.2, get?_cells_link, if_neg notLinked.1]

theorem get?_linkAll_of_mem (distinct : (links.map Prod.fst).Nodup) {v : MetaVar}
    {target : Ty MetaVar} (among : (v, target) ∈ links) :
    (store.linkAll links).cells.get? v = some (.linked target) := by
  induction links generalizing store with
  | nil => cases among
  | cons entry rest inductionHypothesis =>
      rw [List.map_cons, List.nodup_cons] at distinct
      rcases List.mem_cons.mp among with rfl | later
      · rw [linkAll_cons, get?_linkAll_of_not_mem distinct.1, get?_cells_link, if_pos rfl]
      · exact inductionHypothesis distinct.2 later

theorem lookup_of_mem_pending {given : List (BoundVar × Ty MetaVar)} {param : BoundVar}
    (isPending : param ∈ pending scheme given) : given.lookup param = none := by
  rw [mem_pending_iff] at isPending
  cases isPending with
  | root occurs => exact (mem_unfilled.mp occurs).2
  | edge _ isEdge => exact (mem_unfilled.mp isEdge).2

theorem mem_pending_of_given {given : List (BoundVar × Ty MetaVar)} {param : BoundVar}
    (isPending : param ∈ pending scheme given) : param ∈ pending scheme [] := by
  rw [mem_pending_iff] at isPending
  induction isPending with
  | root occurs => exact mem_pending (mem_unfilled.mp occurs).1 rfl
  | edge _ isEdge inductionHypothesis =>
      exact mem_pending_of_kind inductionHypothesis (mem_unfilled.mp isEdge).1 rfl

theorem Scanned.mentions {given : List (BoundVar × Ty MetaVar)} {x : SchemeVar}
    (scanned : Scanned scheme given x) : scheme.Mentions x := by
  rcases scanned with inBody | ⟨owner, _, inKind⟩
  · exact .inl inBody
  · exact Scheme.mentions_of_kind inKind

theorem Scanned.pending {given : List (BoundVar × Ty MetaVar)} {param : BoundVar}
    (scanned : Scanned scheme given (.bound param)) (missing : given.lookup param = none) :
    param ∈ pending scheme given := by
  rcases scanned with inBody | ⟨owner, isPending, inKind⟩
  · exact mem_pending inBody missing
  · exact mem_pending_of_kind isPending inKind missing

theorem Scanned.of_given {given : List (BoundVar × Ty MetaVar)} {x : SchemeVar}
    (scanned : Scanned scheme given x) : Scanned scheme [] x := by
  rcases scanned with inBody | ⟨owner, isPending, inKind⟩
  · exact .inl inBody
  · exact .inr ⟨owner, mem_pending_of_given isPending, inKind⟩

namespace Fills

theorem lookup_iff (fills : store.Fills scheme params args) {param : BoundVar} {arg : Ty MetaVar} :
    (pairUp params args).lookup param = some arg ↔ (param, arg) ∈ params.zip args := by
  have keys : ((params.zip args).map Prod.fst).Nodup := by
    rw [List.map_fst_zip (Nat.le_of_eq fills.fits)]
    exact fills.distinct
  constructor
  · intro found
    obtain ⟨before, after, split, _⟩ := List.lookup_eq_some_iff.mp found
    rw [← List.mem_reverse]
    change (param, arg) ∈ pairUp params args
    simp [split]
  · intro among
    cases found : (pairUp params args).lookup param with
    | none =>
        have missing := List.lookup_eq_none_iff.mp found (param, arg) (List.mem_reverse.mpr among)
        simp at missing
    | some other =>
        obtain ⟨before, after, split, _⟩ := List.lookup_eq_some_iff.mp found
        have otherAmong : (param, other) ∈ params.zip args := by
          rw [← List.mem_reverse]
          change (param, other) ∈ pairUp params args
          simp [split]
        have same := List.inj_on_of_nodup_map keys otherAmong among rfl
        rw [(Prod.mk.inj same).2]

theorem nodup_paramLinks (fills : store.Fills scheme params args) :
    ((store.paramLinks scheme params args).map Prod.fst).Nodup := by
  have keys : ((params.zip args).map Prod.fst).Nodup := by
    rw [List.map_fst_zip (Nat.le_of_eq fills.fits)]
    exact fills.distinct
  rw [paramLinks, List.map_map]
  refine (List.Nodup.of_map _ keys).filter _ |>.map_on ?_
  intro entry among other otherAmong same
  rw [List.mem_filter, decide_eq_true_eq] at among otherAmong
  exact List.inj_on_of_nodup_map keys among.1 otherAmong.1 (instanceVar_inj among.2 same)

theorem mem_paramLinks (fills : store.Fills scheme params args) {v : MetaVar} {target : Ty MetaVar} :
    (v, target) ∈ store.paramLinks scheme params args ↔
      ∃ param ∈ pending scheme [], (pairUp params args).lookup param = some target ∧
        store.instanceVar [] scheme param = v := by
  rw [paramLinks, List.mem_map]
  constructor
  · rintro ⟨⟨param, arg⟩, among, same⟩
    rw [List.mem_filter, decide_eq_true_eq] at among
    cases same
    exact ⟨param, among.2, fills.lookup_iff.mpr among.1, rfl⟩
  · rintro ⟨param, isPending, found, rfl⟩
    refine ⟨(param, target), List.mem_filter.mpr ⟨fills.lookup_iff.mp found, ?_⟩, rfl⟩
    exact decide_eq_true isPending

/-! ## The cells of the linked instance -/

theorem get?_linked (fills : store.Fills scheme params args) {param : BoundVar} {arg : Ty MetaVar}
    (isPending : param ∈ pending scheme []) (found : (pairUp params args).lookup param = some arg) :
    (store.linkedInstance level quantification params args scheme).cells.get?
      (store.instanceVar [] scheme param) = some (.linked arg) :=
  get?_linkAll_of_mem fills.nodup_paramLinks
    (fills.mem_paramLinks.mpr ⟨param, isPending, found, rfl⟩)

theorem get?_not_linked (fills : store.Fills scheme params args) {v : MetaVar}
    (notParam : ∀ param ∈ pending scheme [], (pairUp params args).lookup param ≠ none →
      store.instanceVar [] scheme param ≠ v) :
    (store.linkedInstance level quantification params args scheme).cells.get? v
      = (store.instantiate level quantification scheme).2.cells.get? v := by
  apply get?_linkAll_of_not_mem
  intro among
  obtain ⟨⟨_, target⟩, isLink, rfl⟩ := List.mem_map.mp among
  obtain ⟨param, isPending, found, same⟩ := fills.mem_paramLinks.mp isLink
  exact notParam param isPending (by simp [found]) same

theorem get?_new (fills : store.Fills scheme params args) {param : BoundVar}
    (isPending : param ∈ pending scheme []) (missing : (pairUp params args).lookup param = none) :
    (store.linkedInstance level quantification params args scheme).cells.get?
        (store.instanceVar [] scheme param)
      = some (.free
        { var := store.instanceVar [] scheme param
          kind := (scheme.kindOf param).bind (store.instanceOf (pending scheme []) [])
          quantification := quantification
          level := level }) := by
  rw [fills.get?_not_linked]
  · exact get?_instanceVar store level quantification isPending
  · rintro other otherPending found same
    rw [instanceVar_inj otherPending same] at found
    exact found missing

theorem get?_old (fills : store.Fills scheme params args) {v : MetaVar}
    (old : v.number < store.nextVar) :
    (store.linkedInstance level quantification params args scheme).cells.get? v
      = store.cells.get? v := by
  rw [fills.get?_not_linked]
  · exact (store.instantiateWith_extends level quantification [] scheme).kept v old
  · rintro param _ _ rfl
    exact Nat.not_lt.mpr (Nat.le_add_right _ _) old

/-- No link leads back after the parameters have been linked: a new variable is linked to a type of the store
before, which mentions no new variable. -/
theorem acyclic_linkedInstance (fills : store.Fills scheme params args) (level : Level)
    (quantification : Quantification) :
    (store.linkedInstance level quantification params args scheme).Acyclic := by
  classical
  obtain ⟨rank, ranked⟩ := fills.acyclic
  -- What the arguments own keeps its rank.  New variables come above that, and whatever else the store has
  -- a cell for above the new variables.
  let bound := (args.flatMap Ty.leaves).toFinset.sup rank
  let isNew (v : MetaVar) : Prop := ∃ param ∈ pending scheme [], store.instanceVar [] scheme param = v
  let rankNow (v : MetaVar) : Nat :=
    if store.Owns [v] then rank v else if isNew v then bound + 1 else rank v + bound + 2
  refine ⟨rankNow, ?_⟩
  intro v target stored w occurs
  rcases exists_instanceVar_or_kept store level quantification [] scheme v with
    ⟨param, isPending, rfl⟩ | ⟨outside, kept⟩
  · cases found : (pairUp params args).lookup param with
    | none =>
        rw [fills.get?_new isPending found] at stored
        cases stored
    | some arg =>
        rw [fills.get?_linked isPending found] at stored
        cases stored
        have isArg := Template.mem_of_lookup_pairUp found
        have wOwned : store.Owns [w] := (fills.argsHeld target isArg).owns.singleton occurs
        have notOwned : ¬ store.Owns [store.instanceVar [] scheme param] := by
          intro owned
          exact Nat.not_lt.mpr (Nat.le_add_right _ _) (owned _ (.here (List.mem_singleton.mpr rfl))).1
        have wLow : rank w ≤ bound :=
          Finset.le_sup (List.mem_toFinset.mpr (List.mem_flatMap.mpr ⟨target, isArg, occurs⟩))
        simp only [rankNow, if_pos wOwned, if_neg notOwned]
        rw [if_pos ⟨param, isPending, rfl⟩]
        omega
  · have notNew : ¬ isNew v := by
      rintro ⟨param, isPending, rfl⟩
      have low := Nat.le_add_right store.nextVar ((pending scheme []).idxOf param)
      have high := store.instanceVar_lt isPending
      rw [instanceVar] at outside high
      dsimp only at outside high
      omega
    have storedBefore : store.cells.get? v = some (.linked target) := by
      rw [fills.get?_not_linked fun param isPending _ same => notNew ⟨param, isPending, same⟩,
        instantiate, kept] at stored
      exact stored
    have lower := ranked storedBefore w occurs
    by_cases owned : store.Owns [v]
    · have wOwned : store.Owns [w] :=
        (owned.of_linked (List.mem_singleton.mpr rfl) storedBefore).singleton occurs
      simp only [rankNow, if_pos owned, if_pos wOwned]
      exact lower
    · simp only [rankNow, if_neg owned, if_neg notNew]
      split
      · omega
      · split <;> omega

end Fills

end Store

end TypedMatch
