import TypedMatch.Proofs.Coverage.Enumeration
import TypedMatch.Proofs.Environment.Expand

/-!
# The heads that a check computes

A check computes the heads of a type on the store, where types still have links, synonyms and aliases.
For an owned type, the outlines of what is computed are the heads that are listed for the outline of the
type.  Nothing is assumed of the declarations, and a column need not fit the type: where no heads are
listed, the computation fails.
-/

set_option autoImplicit false

namespace TypedMatch

theorem keptRows_retype {Var NewVar : Type} (change : Ty Var → Ty NewVar) (head : Head Var)
    (rows : List Row) : keptRows (head.retype change) rows = keptRows head rows := by
  have same : Row.under (head.retype change) = Row.under head := by
    funext row
    simp only [Row.under, Head.demands_retype]
  rw [keptRows, same]
  rfl

section Computed

variable {base store grown : Store} {args : List (Ty MetaVar)}

def Head.OwnedBy (head : Head MetaVar) (store : Store) : Prop :=
  ∀ slot ∈ head.slots, store.Owns slot.leaves

theorem Head.ownedBy_of_slots_eq_nil {heads : List (Head MetaVar)}
    (noSlots : ∀ head ∈ heads, head.slots = []) : ∀ head ∈ heads, head.OwnedBy store := by
  intro head inHeads slot among
  rw [noSlots head inHeads] at among
  cases among

theorem Head.OwnedBy.of_extends {head : Head MetaVar} (owned : head.OwnedBy store)
    (extension : grown.Extends store) : head.OwnedBy grown :=
  fun slot among => extension.owns (owned slot among)

theorem Head.slots_retype_outline (store : Store) (head : Head MetaVar) :
    (head.retype store.outline).slots = head.slots.map store.outline := by
  cases head <;> rfl

theorem Head.retype_of_extends (acyclic : store.Acyclic) (extension : grown.Extends store)
    {head : Head MetaVar} (owned : head.OwnedBy store) :
    head.retype grown.outline = head.retype store.outline := by
  have same : ∀ slot ∈ head.slots, grown.outline slot = store.outline slot :=
    fun slot among => Store.outline_of_extends acyclic extension (owned slot among)
  cases head with
  | cons element => rw [retype, retype, same element (.head _)]
  | tuple components => exact congrArg tuple (List.map_congr_left same)
  | applied name payload => rw [retype, retype, same payload (.head _)]
  | _ => rfl

def Head.ofRoot (name : String) (payload root : Ty MetaVar) : Head MetaVar :=
  match root with
  | .base .unit => .constant name
  | _ => .applied name payload

theorem Head.retype_ofRoot {payload root : Ty MetaVar} (settled : store.Settled root)
    (sameOutline : store.outline root = store.outline payload) (name : String) :
    (ofRoot name payload root).retype store.outline = ofConstructor name (store.outline payload) := by
  by_cases isUnit : store.outline payload = .unit
  · rw [settled.eq_base (sameOutline.trans isUnit), isUnit]
    rfl
  · rw [ofConstructor_of_ne_unit name isUnit]
    unfold ofRoot
    split
    · exact absurd sameOutline.symm isUnit
    · rfl

theorem Head.ownedBy_ofRoot {payload : Ty MetaVar} (owned : store.Owns payload.leaves)
    (root : Ty MetaVar) (name : String) : (ofRoot name payload root).OwnedBy store := by
  intro slot among
  unfold ofRoot at among
  split at among
  · cases among
  · cases List.mem_singleton.mp among
    exact owned

/-- The heads of a variant's constructors are computed, and their outlines are the heads of the
constructors as they are seen from the store. -/
theorem constructorHeads_of_owns (acyclic : base.Acyclic) (level : Level) :
    ∀ (constructors : List Constructor) (store : Store), store.Extends base →
      (∀ constructor ∈ constructors, base.Owns constructor.payload.vars ∧
        constructor.payload.params.length = args.length) →
      (∀ arg ∈ args, store.Owns arg.leaves) →
      ∃ heads grown, constructorHeads level args store constructors = .ok (heads, grown) ∧
        grown.Extends store ∧ (∀ head ∈ heads, head.OwnedBy grown) ∧
        heads.map (Head.retype grown.outline) = constructors.map fun constructor =>
          .ofConstructor constructor.name
            ((constructor.payload.outline base).fill (args.map store.outline)) := by
  intro constructors
  induction constructors with
  | nil =>
      intro store _ _ _
      exact ⟨[], store, rfl, .refl store, List.forall_mem_nil _, rfl⟩
  | cons constructor rest inductionHypothesis =>
      intro store extension declared argsOwned
      obtain ⟨payloadOwned, fits⟩ := declared constructor (.head _)
      obtain ⟨payload, first, applies, firstGrowth, firstOwned, firstOutline⟩ :=
        Store.apply_of_owns acyclic extension payloadOwned argsOwned fits level .allowed
      have firstAcyclic : first.Acyclic := (firstGrowth.trans extension).acyclic acyclic
      obtain ⟨root, unfolds, sameOutline, _, settled⟩ :=
        Store.unfold_of_owns firstAcyclic firstOwned
      obtain ⟨heads, last, runs, growth, headsOwned, headsOutline⟩ :=
        inductionHypothesis first (firstGrowth.trans extension)
          (fun other among => declared other (.tail _ among))
          (fun arg among => firstGrowth.owns (argsOwned arg among))
      have headOwned := Head.ownedBy_ofRoot firstOwned root constructor.name
      have argsOutline : args.map first.outline = args.map store.outline :=
        Store.map_outline_of_extends (extension.acyclic acyclic) firstGrowth argsOwned
      refine ⟨.ofRoot constructor.name payload root :: heads, last, ?_, growth.trans firstGrowth,
        ?_, ?_⟩
      · rw [constructorHeads, applies]
        simp only [bind, Except.bind, unfolds, runs]
        rfl
      · exact List.forall_mem_cons.mpr ⟨headOwned.of_extends growth, headsOwned⟩
      · rw [List.map_cons, headsOutline, Head.retype_of_extends firstAcyclic growth headOwned,
          Head.retype_ofRoot settled sameOutline, firstOutline, argsOutline]
        rfl

variable {env : Environment} {column : List Shape} {type : Ty MetaVar}

theorem constructorHeads_error {level : Level} {args : List (Ty MetaVar)}
    {constructors : List Constructor} {constructor : Constructor} (among : constructor ∈ constructors)
    (misfits : constructor.payload.params.length ≠ args.length) (store : Store) :
    ∃ fault, constructorHeads level args store constructors = .error fault := by
  induction constructors generalizing store with
  | nil => cases among
  | cons first rest inductionHypothesis =>
      rw [constructorHeads, Store.apply, Store.instantiateAt]
      by_cases fits : first.payload.params.length = args.length
      · rw [if_pos fits]
        have inRest : constructor ∈ rest := by
          rcases List.mem_cons.mp among with rfl | inRest
          · exact absurd fits misfits
          · exact inRest
        dsimp only [bind, Except.bind]
        split
        · exact ⟨_, rfl⟩
        · obtain ⟨fault, fails⟩ := inductionHypothesis inRest _
          rw [fails]
          exact ⟨fault, rfl⟩
      · rw [if_neg fits]
        exact ⟨_, rfl⟩

theorem strangeCtor?_outline (constructors : List Constructor) :
    strangeCtor? (constructors.map fun constructor =>
      ⟨constructor.name, constructor.payload.outline base⟩) column
        = strangeCtor? constructors column := by
  rw [strangeCtor?, strangeCtor?, List.map_map]
  rfl

/-- Whether the heads of a type are computed, and are what the outline of the type lists. -/
structure Environment.ComputesHeads (env outlined : Environment) (level : Level) (store : Store)
    (type : Ty MetaVar) (column : List Shape) (heads : List (Head MetaVar)) (grown : Store) :
    Prop where
  runs : env.heads level store type column = .ok (heads, grown)
  growth : grown.Extends store
  owned : ∀ head ∈ heads, head.OwnedBy grown
  lists : outlined.Lists column (store.outline type) (heads.map (Head.retype grown.outline))

theorem Environment.headsAt?_of_isSealed {root : Ty Unit} (isSealed : root.IsSealed) :
    env.headsAt? column root = none := by
  cases root with
  | base kind =>
      cases kind with
      | unit | bool | int | string => exact isSealed.elim
      | _ => rfl
  | list _ | product _ | data _ _ => exact isSealed.elim
  | _ => rfl

theorem Store.Settled.isSealed_outline {root : Ty MetaVar} (settled : store.Settled root)
    (isSealed : root.IsSealed) : (store.outline root).IsSealed := by
  cases root with
  | var v =>
      rw [settled.outline_var]
      exact trivial
  | base kind => cases kind <;> exact isSealed
  | list _ | product _ | data _ _ => exact isSealed.elim
  | synonym _ _ _ => exact settled.elim
  | _ => exact trivial

theorem Environment.heads_error_of_isSealed {level : Level} {found : Ty MetaVar}
    (expands : env.expand level store type = .ok (found, grown)) (isSealed : found.IsSealed) :
    ∃ fault, env.heads level store type column = .error fault := by
  rw [heads, expands]
  cases found with
  | base kind =>
      cases kind with
      | unit | bool | int | string => exact isSealed.elim
      | _ =>
          dsimp only [bind, Except.bind]
          split
          · exact ⟨_, rfl⟩
          · exact ⟨_, rfl⟩
  | list _ | product _ | data _ _ => exact isSealed.elim
  | _ =>
      dsimp only [bind, Except.bind]
      split
      · exact ⟨_, rfl⟩
      · exact ⟨_, rfl⟩

section Expanded

variable {level : Level}

theorem Environment.constructors?_outline {con : TyCon} {constructors : List Constructor}
    (declared : env.constructors? con = some constructors) :
    (env.outline base).constructors? con = some (constructors.map fun constructor =>
      ⟨constructor.name, constructor.payload.outline base⟩) :=
  Option.map_eq_some_iff.mpr ⟨constructors, declared, rfl⟩

theorem Environment.heads_computed_or_error_of_data (acyclic : base.Acyclic)
    (owned : env.OwnedBy base) (extension : store.Extends base) {con : TyCon}
    {args : List (Ty MetaVar)}
    (expands : env.expand level store type = .ok (.data con args, grown))
    (growth : grown.Extends store) (argsOwned : ∀ arg ∈ args, grown.Owns arg.leaves)
    (stands : (env.outline base).Root (store.outline type) (.data con (args.map grown.outline))) :
    (∃ heads last, env.ComputesHeads (env.outline base) level store type column heads last) ∨
      (env.outline base).headsAt? column (.data con (args.map grown.outline)) = none ∧
        ∃ fault, env.heads level store type column = .error fault := by
  cases declared : env.constructors? con with
  | none =>
      have undeclared : (env.outline base).constructors? con = none :=
        Option.map_eq_none_iff.mpr declared
      refine .inr ⟨?_, .notVariant con, ?_⟩
      · rw [headsAt?, undeclared]
      · rw [heads, expands]
        simp only [bind, Except.bind, declared]
        rfl
  | some constructors =>
      have outlined : (env.outline base).constructors? con = some _ := constructors?_outline declared
      cases strange : strangeCtor? constructors column with
      | some name =>
          refine .inr ⟨?_, .unknownConstructor name con, ?_⟩
          · rw [headsAt?, outlined]
            dsimp only
            rw [strangeCtor?_outline, strange, if_neg (by simp)]
          · rw [heads, expands]
            simp only [bind, Except.bind, declared, strange]
            rfl
      | none =>
          have runs : env.heads level store type column
              = constructorHeads level args grown constructors := by
            rw [heads, expands]
            simp only [bind, Except.bind, declared, strange]
          by_cases fits : ∀ constructor ∈ constructors,
              constructor.payload.params.length = args.length
          · obtain ⟨heads, last, computes, further, headsOwned, headsOutline⟩ :=
              constructorHeads_of_owns acyclic level constructors grown (growth.trans extension)
                (fun constructor among =>
                  ⟨owned.payloads declared constructor among, fits constructor among⟩) argsOwned
            refine .inl ⟨heads, last, runs.trans computes, further.trans growth, headsOwned, _,
              stands, ?_⟩
            rw [headsAt?, outlined]
            dsimp only
            rw [strangeCtor?_outline, if_pos, headsOutline, List.map_map]
            · rfl
            · exact ⟨strange, by simpa [List.length_map, Template.outline] using fits⟩
          · push Not at fits
            obtain ⟨constructor, among, misfits⟩ := fits
            refine .inr ⟨?_, ?_⟩
            · rw [headsAt?, outlined]
              dsimp only
              rw [if_neg]
              rintro ⟨_, allFit⟩
              have fits := allFit _ (List.mem_map_of_mem among)
              rw [List.length_map] at fits
              exact misfits fits
            · rw [runs]
              exact constructorHeads_error among misfits grown

theorem Environment.heads_of_base (outlined : Environment) {kind : BaseTy}
    (notSealed : ¬ (Ty.base kind : Ty MetaVar).IsSealed)
    (expands : env.expand level store type = .ok (.base kind, grown)) :
    ∃ heads, env.heads level store type column = .ok (heads, grown) ∧
      (∀ head ∈ heads, head.slots = []) ∧
      outlined.headsAt? column (.base kind) = some (heads.map (Head.retype grown.outline)) := by
  rw [heads, expands]
  cases kind with
  | unit => exact ⟨[.unit], rfl, by simp [Head.slots], rfl⟩
  | bool => exact ⟨[.bool true, .bool false], rfl, by simp [Head.slots], rfl⟩
  | int =>
      refine ⟨(listedInts column).map .int ++ [.intBesides (listedInts column)], rfl, ?_, ?_⟩
      · simp [Head.slots, or_imp, forall_and]
      · rw [List.map_append, List.map_map]
        rfl
  | string =>
      refine ⟨(listedStrs column).map .str ++ [.strBesides (listedStrs column)], rfl, ?_, ?_⟩
      · simp [Head.slots, or_imp, forall_and]
      · rw [List.map_append, List.map_map]
        rfl
  | _ => exact absurd trivial notSealed

variable {found : Ty MetaVar}

theorem Environment.heads_computed_or_error_of_expand (acyclic : base.Acyclic)
    (owned : env.OwnedBy base) (extension : store.Extends base)
    (expands : env.expand level store type = .ok (found, grown)) (growth : grown.Extends store)
    (foundOwned : grown.Owns found.leaves) (settled : grown.Settled found)
    (stands : (env.outline base).Root (store.outline type) (grown.outline found))
    (column : List Shape) :
    (∃ heads last, env.ComputesHeads (env.outline base) level store type column heads last) ∨
      (env.outline base).headsAt? column (grown.outline found) = none ∧
        ∃ fault, env.heads level store type column = .error fault := by
  by_cases isSealed : found.IsSealed
  · exact .inr ⟨headsAt?_of_isSealed (settled.isSealed_outline isSealed),
      heads_error_of_isSealed expands isSealed⟩
  · cases found with
    | base kind =>
        obtain ⟨heads, runs, noSlots, lists⟩ :=
          heads_of_base (env.outline base) isSealed expands
        exact .inl ⟨heads, grown, runs, growth, Head.ownedBy_of_slots_eq_nil noSlots, _, stands, lists⟩
    | list element =>
        exact .inl ⟨[.cons element, .nil], grown,
          { runs := by
              rw [heads, expands]
              rfl
            growth
            owned := by
              refine List.forall_mem_cons.mpr ⟨?_, List.forall_mem_singleton.mpr ?_⟩
              · exact List.forall_mem_cons.mpr
                  ⟨foundOwned, List.forall_mem_singleton.mpr foundOwned⟩
              · exact List.forall_mem_nil _
            lists := ⟨_, stands, rfl⟩ }⟩
    | product components =>
        rw [Store.outline_product] at stands ⊢
        cases strange : strangeLength? components.length column with
        | none =>
            exact .inl ⟨[.tuple components], grown,
              { runs := by
                  rw [heads, expands]
                  simp only [bind, Except.bind, strange]
                  rfl
                growth
                owned := List.forall_mem_singleton.mpr foundOwned.of_leavesList
                lists := by
                  refine ⟨_, stands, ?_⟩
                  rw [headsAt?, List.length_map, if_pos strange]
                  rfl }⟩
        | some length =>
            refine .inr ⟨?_, .tupleLength components.length length, ?_⟩
            · rw [headsAt?, List.length_map, if_neg (by simp [strange])]
            · rw [heads, expands]
              simp only [bind, Except.bind, strange]
              rfl
    | data con args =>
        rw [Store.outline_data] at stands ⊢
        exact heads_computed_or_error_of_data acyclic owned extension expands growth
          foundOwned.of_leavesList stands
    | _ => exact absurd trivial isSealed

end Expanded

theorem Environment.heads_computed_or_error (acyclic : base.Acyclic) (owned : env.OwnedBy base)
    (level : Level) (extension : store.Extends base) (typeOwned : store.Owns type.leaves)
    (column : List Shape) :
    (∃ heads grown,
      env.ComputesHeads (env.outline base) level store type column heads grown) ∨
      (∀ heads, ¬ (env.outline base).Lists column (store.outline type) heads) ∧
        ∃ fault, env.heads level store type column = .error fault := by
  by_cases rooted : ∃ root, (env.outline base).Root (store.outline type) root
  · obtain ⟨root, stands⟩ := rooted
    obtain ⟨found, grown, expands, growth, foundOwned, rfl, settled⟩ :=
      expand_of_root acyclic owned level extension typeOwned stands
    rcases heads_computed_or_error_of_expand acyclic owned extension expands growth foundOwned settled
      stands column with computes | ⟨unlisted, fails⟩
    · exact .inl computes
    · exact .inr ⟨not_lists_of_root stands unlisted, fails⟩
  · have rootless : ∀ root, ¬ (env.outline base).Root (store.outline type) root :=
      not_exists.mp rooted
    obtain ⟨fault, fails⟩ := expand_error acyclic owned level extension typeOwned rootless
    refine .inr ⟨?_, fault, ?_⟩
    · rintro heads ⟨root, stands, _⟩
      exact rootless root stands
    · rw [heads, fails]
      rfl

end Computed

end TypedMatch
