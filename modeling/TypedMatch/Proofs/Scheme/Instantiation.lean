import TypedMatch.Proofs.Environment.Root
import TypedMatch.Proofs.Walk.Reachable

/-!
# What an instantiation leaves behind

Instantiating a scheme mints one free variable for every owned variable that no type is given for, and
does nothing else to the store.  The instance is the body of the scheme with types for its variables,
so that its outline is that of the body filled with the outlines of the given types.
-/

set_option autoImplicit false

namespace TypedMatch

namespace Store

variable {store grown base : Store}

/-! ## Minting several variables -/

theorem foldl_newVar_extends {Origin : Type} (kinds : Origin → Kind MetaVar)
    (quantification : Quantification) (level : Level) (origins : List Origin) (store : Store) :
    let grown := origins.foldl
      (fun grown origin => (grown.newVar (kinds origin) quantification level).2) store
    grown.Extends store ∧ grown.nextVar = store.nextVar + origins.length ∧
      ∀ (index : Nat) (inside : index < origins.length),
        grown.cells.get? ⟨store.nextVar + index⟩
          = some (.free ⟨⟨store.nextVar + index⟩, kinds origins[index], quantification, level⟩) := by
  induction origins generalizing store with
  | nil => exact ⟨.refl store, rfl, fun _ inside => absurd inside (Nat.not_lt_zero _)⟩
  | cons origin rest inductionHypothesis =>
      have step : (store.newVar (kinds origin) quantification level).2.Extends store := by
        refine ⟨Nat.le_succ _, ?_, ?_, rfl, rfl⟩
        · intro v minted
          rw [get?_cells_newVar, if_neg]
          rintro rfl
          exact Nat.lt_irrefl _ minted
        · intro v target stored
          rw [get?_cells_newVar] at stored
          split at stored
          · cases stored
          · exact stored
      obtain ⟨extension, counted, minted⟩ :=
        inductionHypothesis (store.newVar (kinds origin) quantification level).2
      refine ⟨extension.trans step, ?_, ?_⟩
      · rw [List.foldl_cons, counted, List.length_cons]
        change store.nextVar + 1 + rest.length = _
        omega
      · intro index inside
        cases index with
        | zero =>
            have fresh : store.nextVar < (store.newVar (kinds origin) quantification level).2.nextVar :=
              Nat.lt_succ_self _
            rw [List.foldl_cons, Nat.add_zero, extension.kept _ fresh, get?_cells_newVar, if_pos rfl]
            rfl
        | succ index =>
            have later := minted index (by simpa using inside)
            have number : store.nextVar + (index + 1) = store.nextVar + 1 + index := by omega
            rw [List.foldl_cons, number]
            exact later

theorem get?_foldl_newVar_of_outside {Origin : Type} (kinds : Origin → Kind MetaVar)
    (quantification : Quantification) (level : Level) (origins : List Origin) {store : Store}
    {v : MetaVar} (outside : v.number < store.nextVar ∨ store.nextVar + origins.length ≤ v.number) :
    (origins.foldl (fun grown origin => (grown.newVar (kinds origin) quantification level).2)
      store).cells.get? v = store.cells.get? v := by
  induction origins generalizing store with
  | nil => rfl
  | cons origin rest inductionHypothesis =>
      have different : v ≠ ⟨store.nextVar⟩ := by
        rintro rfl
        simp at outside
      rw [List.foldl_cons, inductionHypothesis, get?_cells_newVar, if_neg different]
      rw [List.length_cons] at outside
      change v.number < store.nextVar + 1 ∨ store.nextVar + 1 + rest.length ≤ v.number
      omega

/-! ## Instances -/

def unfilled (given : List (BoundVar × Ty MetaVar)) (vars : List SchemeVar) : List BoundVar :=
  (vars.filterMap SchemeVar.bound?).filter fun var => (given.lookup var).isNone

theorem mem_unfilled {given : List (BoundVar × Ty MetaVar)} {vars : List SchemeVar}
    {param : BoundVar} :
    param ∈ unfilled given vars ↔ .bound param ∈ vars ∧ given.lookup param = none := by
  rw [unfilled, List.mem_filter, List.mem_filterMap, Option.isNone_iff_eq_none]
  refine and_congr_left fun _ => ⟨?_, fun occurs => ⟨.bound param, occurs, rfl⟩⟩
  rintro ⟨v, occurs, isBound⟩
  cases v with
  | free v => cases isBound
  | bound other =>
      cases isBound
      exact occurs

/-- New variables are for the owned variables that are reached from the body, also through kinds, and
that no type is given for. -/
theorem mem_pending_iff {scheme : Scheme} {given : List (BoundVar × Ty MetaVar)}
    {param : BoundVar} :
    param ∈ pending scheme given ↔
      Trail.Reachable (fun owned => unfilled given (scheme.kindOf owned).leaves)
        (unfilled given scheme.body.leaves) param := by
  have covers : ∀ owned, unfilled given (scheme.kindOf owned).leaves ≠ [] →
      owned ∈ scheme.quantified.map Quantified.var := by
    intro owned hasEdges
    rw [Scheme.kindOf] at hasEdges
    cases found : scheme.find? owned with
    | none =>
        rw [found] at hasEdges
        exact absurd rfl hasEdges
    | some entry =>
        have isOwned := List.find?_some found
        rw [← eq_of_beq isOwned]
        exact List.mem_map_of_mem (List.mem_of_find?_eq_some found)
  have sameLength : (scheme.quantified.map Quantified.var).length = scheme.quantified.length :=
    List.length_map _
  rw [pending, ← sameLength]
  exact Trail.mem_entered_iff covers

theorem nodup_pending {scheme : Scheme} {given : List (BoundVar × Ty MetaVar)} :
    (pending scheme given).Nodup :=
  Trail.nodup_entered_walk

theorem mem_pending {scheme : Scheme} {given : List (BoundVar × Ty MetaVar)} {param : BoundVar}
    (occurs : .bound param ∈ scheme.body.leaves) (missing : given.lookup param = none) :
    param ∈ pending scheme given :=
  mem_pending_iff.mpr (.root (mem_unfilled.mpr ⟨occurs, missing⟩))

theorem instantiateWith_extends (store : Store) (level : Level) (quantification : Quantification)
    (given : List (BoundVar × Ty MetaVar)) (scheme : Scheme) :
    (store.instantiateWith level quantification given scheme).2.Extends store :=
  (foldl_newVar_extends _ quantification level _ store).1

def instanceVar (store : Store) (given : List (BoundVar × Ty MetaVar)) (scheme : Scheme)
    (param : BoundVar) : MetaVar :=
  ⟨store.nextVar + (pending scheme given).idxOf param⟩

section InstanceVar

variable {given : List (BoundVar × Ty MetaVar)} {scheme : Scheme} {param other : BoundVar}

theorem instanceVar_inj (isPending : param ∈ pending scheme given)
    (same : store.instanceVar given scheme param = store.instanceVar given scheme other) :
    param = other := by
  have sameIndex := Nat.add_left_cancel (congrArg MetaVar.number same)
  exact (List.idxOf_inj isPending).mp sameIndex

theorem get?_instanceVar (store : Store) (level : Level) (quantification : Quantification)
    (isPending : param ∈ pending scheme given) :
    (store.instantiateWith level quantification given scheme).2.cells.get?
        (store.instanceVar given scheme param)
      = some (.free
        { var := store.instanceVar given scheme param
          kind := (scheme.kindOf param).bind (store.instanceOf (pending scheme given) given)
          quantification := quantification
          level := level }) := by
  have inside := List.idxOf_lt_length_of_mem isPending
  obtain ⟨_, _, minted⟩ := foldl_newVar_extends
    (fun owned => (scheme.kindOf owned).bind (store.instanceOf (pending scheme given) given))
    quantification level (pending scheme given) store
  have stored := minted _ inside
  rw [List.getElem_idxOf] at stored
  exact stored

theorem nextVar_instantiateWith (store : Store) (level : Level) (quantification : Quantification)
    (given : List (BoundVar × Ty MetaVar)) (scheme : Scheme) :
    (store.instantiateWith level quantification given scheme).2.nextVar
      = store.nextVar + (pending scheme given).length :=
  (foldl_newVar_extends _ quantification level _ store).2.1

theorem instanceVar_lt (store : Store) (isPending : param ∈ pending scheme given) :
    (store.instanceVar given scheme param).number < store.nextVar + (pending scheme given).length :=
  Nat.add_lt_add_left (List.idxOf_lt_length_of_mem isPending) _

theorem exists_instanceVar_or_kept (store : Store) (level : Level) (quantification : Quantification)
    (given : List (BoundVar × Ty MetaVar)) (scheme : Scheme) (v : MetaVar) :
    (∃ param ∈ pending scheme given, store.instanceVar given scheme param = v) ∨
      (v.number < store.nextVar ∨ store.nextVar + (pending scheme given).length ≤ v.number) ∧
      (store.instantiateWith level quantification given scheme).2.cells.get? v
        = store.cells.get? v := by
  by_cases outside : v.number < store.nextVar
      ∨ store.nextVar + (pending scheme given).length ≤ v.number
  · exact .inr ⟨outside, get?_foldl_newVar_of_outside _ quantification level _ outside⟩
  · have inside : v.number - store.nextVar < (pending scheme given).length := by omega
    refine .inl ⟨_, List.getElem_mem inside, ?_⟩
    have distinct : (pending scheme given).Nodup := nodup_pending
    rw [instanceVar, distinct.idxOf_getElem]
    have sameNumber : store.nextVar + (v.number - store.nextVar) = v.number := by omega
    rw [sameNumber]

theorem mem_pending_of_kind (isPending : param ∈ pending scheme given)
    (occurs : .bound other ∈ (scheme.kindOf param).leaves) (missing : given.lookup other = none) :
    other ∈ pending scheme given :=
  mem_pending_iff.mpr (.edge (mem_pending_iff.mp isPending) (mem_unfilled.mpr ⟨occurs, missing⟩))

end InstanceVar

theorem free_of_pending (store : Store) (level : Level) (quantification : Quantification)
    {given : List (BoundVar × Ty MetaVar)} {scheme : Scheme} {param : BoundVar}
    (occurs : .bound param ∈ scheme.body.leaves) (missing : given.lookup param = none) :
    let grown := (store.instantiateWith level quantification given scheme).2
    let fresh : MetaVar := ⟨store.nextVar + (pending scheme given).idxOf param⟩
    fresh.number < grown.nextVar ∧ ∃ record, grown.cells.get? fresh = some (.free record) := by
  have isPending := mem_pending occurs missing
  refine ⟨?_, _, get?_instanceVar store level quantification isPending⟩
  rw [nextVar_instantiateWith]
  exact store.instanceVar_lt isPending

end Store

/-! ## Applied templates -/

theorem SchemeVar.mem_filterMap_free? {vars : List SchemeVar} {v : MetaVar} :
    v ∈ vars.filterMap SchemeVar.free? ↔ .free v ∈ vars := by
  rw [List.mem_filterMap]
  constructor
  · rintro ⟨x, among, isFree⟩
    cases x with
    | bound param => cases isFree
    | free w =>
        cases isFree
        exact among
  · intro among
    exact ⟨.free v, among, rfl⟩

def Template.vars (template : Template) : List MetaVar :=
  template.body.leaves.filterMap SchemeVar.free?

theorem Template.mem_vars {template : Template} {v : MetaVar}
    (occurs : .free v ∈ template.body.leaves) : v ∈ template.vars :=
  SchemeVar.mem_filterMap_free?.mpr occurs

namespace Store

variable {store base : Store} {template : Template} {args : List (Ty MetaVar)}

/-- A template and its arguments that are owned by a store give an owned type, whose outline is that
of the template filled with the outlines of the arguments. -/
theorem apply_of_owns (acyclic : base.Acyclic) (extension : store.Extends base)
    (templateOwned : base.Owns template.vars) (argsOwned : ∀ arg ∈ args, store.Owns arg.leaves)
    (fits : template.params.length = args.length) (level : Level)
    (quantification : Quantification) :
    ∃ type grown, store.apply level quantification template args = .ok (type, grown) ∧
      grown.Extends store ∧ grown.Owns type.leaves ∧
      grown.outline type = (template.outline base).fill (args.map store.outline) := by
  let given := pairUp template.params args
  let scheme := template.scheme
  let grown := (store.instantiateWith level quantification given scheme).2
  have growth : grown.Extends store := store.instantiateWith_extends level quantification given scheme
  have acyclicStore : store.Acyclic := extension.acyclic acyclic
  refine ⟨(store.instantiateWith level quantification given scheme).1, grown, ?_, growth, ?_, ?_⟩
  · rw [apply, instantiateAt, if_pos fits]
  · apply owns_of_forall
    intro w occurs
    rw [instantiateWith, Ty.leaves_bind, List.mem_flatMap] at occurs
    obtain ⟨v, inBody, inInstance⟩ := occurs
    cases v with
    | free v =>
        have owned := (growth.trans extension).owns templateOwned
        cases List.mem_singleton.mp inInstance
        exact owned.singleton (Template.mem_vars inBody)
    | bound param =>
        rw [instanceOf] at inInstance
        cases found : given.lookup param with
        | some arg =>
            rw [found] at inInstance
            have owned := growth.owns (argsOwned arg (Template.mem_of_lookup_pairUp found))
            exact owned.singleton inInstance
        | none =>
            rw [found] at inInstance
            cases List.mem_singleton.mp inInstance
            obtain ⟨minted, record, stored⟩ :=
              store.free_of_pending level quantification inBody found
            exact owns_singleton_of_free minted stored
  · rw [instantiateWith, outline, Ty.resolve_bind, Template.fill, Template.outline, Ty.bind_resolve]
    apply Ty.resolve_congr _
    intro v inBody
    cases v with
    | free v =>
        have owned := templateOwned.singleton (Template.mem_vars inBody)
        have same : grown.outlineOf v = base.outlineOf v :=
          outlineOf_of_extends acyclic (growth.trans extension) owned
        simp only [instanceOf, Ty.resolve, same, Ty.map, Ty.bind_bind, Ty.bind, Template.argument]
        exact (Ty.bind_var _).symm
    | bound param =>
        simp only [instanceOf, Ty.bind, Template.argument, Template.lookup_pairUp_map]
        cases found : given.lookup param with
        | some arg =>
            have owned := argsOwned arg (Template.mem_of_lookup_pairUp found)
            exact outline_of_extends acyclicStore growth owned
        | none =>
            obtain ⟨_, record, stored⟩ := store.free_of_pending level quantification inBody found
            exact outlineOf_of_free stored

end Store

end TypedMatch
