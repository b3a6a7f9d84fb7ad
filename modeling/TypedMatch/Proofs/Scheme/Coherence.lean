import TypedMatch.Proofs.Scheme.Linking
import TypedMatch.Proofs.Store.Coherent

/-!
# Schemes on coherent stores

An instantiation mints several variables whose kinds may mention each other, the later ones as well, so the
store is coherent again only when all of them are there.  A generalisation reads the cells of all variables
that are reached, and those of a coherent store are there to be read.
-/

set_option autoImplicit false

namespace TypedMatch.Store.Coherent

variable {store : Store} {scheme : Scheme} {given : List (BoundVar × Ty MetaVar)} {level : Level}
  {quantification : Quantification}

/-! ## Instances -/

theorem lt_of_mem_instanceOf (schemeMinted : store.Minted fun v => scheme.Mentions (.free v))
    (givenMinted : ∀ param type, given.lookup param = some type → store.Minted (· ∈ type.leaves))
    {x : SchemeVar} (scanned : Scanned scheme given x) {v : MetaVar}
    (occurs : v ∈ (store.instanceOf (pending scheme given) given x).leaves) :
    v.number < store.nextVar + (pending scheme given).length := by
  cases x with
  | free w =>
      rw [List.mem_singleton.mp occurs]
      exact Nat.lt_add_right _ (schemeMinted w scanned.mentions)
  | bound param =>
      rw [instanceOf] at occurs
      cases found : given.lookup param with
      | some type =>
          rw [found] at occurs
          exact Nat.lt_add_right _ (givenMinted param type found v occurs)
      | none =>
          rw [found] at occurs
          rw [List.mem_singleton.mp occurs]
          exact store.instanceVar_lt (scanned.pending found)

theorem instantiateWith_holding (coherent : store.Coherent)
    (schemeMinted : store.Minted fun v => scheme.Mentions (.free v))
    (givenMinted : ∀ param type, given.lookup param = some type → store.Minted (· ∈ type.leaves))
    (level : Level) (quantification : Quantification) :
    let made := store.instantiateWith level quantification given scheme
    store.Holding (· ∈ made.1.leaves) made.2 := by
  intro made
  have counted : made.2.nextVar = store.nextVar + (pending scheme given).length :=
    store.nextVar_instantiateWith level quantification given scheme
  have grows : store.nextVar ≤ made.2.nextVar := by omega
  have cases (v : MetaVar) := store.exists_instanceVar_or_kept level quantification given scheme v
  have lower {x : SchemeVar} (scanned : Scanned scheme given x) :
      made.2.Minted (· ∈ (store.instanceOf (pending scheme given) given x).leaves) := by
    intro v occurs
    rw [counted]
    exact lt_of_mem_instanceOf schemeMinted givenMinted scanned occurs
  refine ⟨⟨?_, ?_, ?_⟩, grows, ?_⟩
  · intro v
    rcases cases v with ⟨param, isPending, rfl⟩ | ⟨outside, kept⟩
    · rw [get?_instanceVar store level quantification isPending, counted]
      exact iff_of_true rfl (store.instanceVar_lt isPending)
    · rw [kept, coherent.known_iff, counted]
      omega
  · intro v record stored
    rcases cases v with ⟨param, isPending, rfl⟩ | ⟨_, kept⟩
    · rw [get?_instanceVar store level quantification isPending] at stored
      cases stored
      rfl
    · exact coherent.named v record (kept.symm.trans stored)
  · intro v cell stored
    rcases cases v with ⟨param, isPending, rfl⟩ | ⟨_, kept⟩
    · rw [get?_instanceVar store level quantification isPending] at stored
      cases stored
      intro w occurs
      rw [Cell.leaves, Kind.leaves_bind, List.mem_flatMap] at occurs
      obtain ⟨x, inKind, inInstance⟩ := occurs
      exact lower (.inr ⟨param, isPending, inKind⟩) w inInstance
    · exact (coherent.within v cell (kept.symm.trans stored)).mono grows
  · intro v occurs
    change v ∈ (scheme.body.bind (store.instanceOf (pending scheme given) given)).leaves at occurs
    rw [Ty.leaves_bind, List.mem_flatMap] at occurs
    obtain ⟨x, inBody, inInstance⟩ := occurs
    exact lower (.inl inBody) v inInstance

theorem instantiateAt_advances (coherent : store.Coherent) {params : List BoundVar}
    {args : List (Ty MetaVar)} (schemeMinted : store.Minted fun v => scheme.Mentions (.free v))
    (argsMinted : ∀ arg ∈ args, store.Minted (· ∈ arg.leaves)) (level : Level)
    (quantification : Quantification) :
    store.Advances (fun type v => v ∈ type.leaves)
      (store.instantiateAt level quantification params args scheme) := by
  rw [instantiateAt]
  split
  · exact coherent.instantiateWith_holding schemeMinted
      (fun _ _ found => argsMinted _ (Template.mem_of_lookup_pairUp found)) level quantification
  · rfl

theorem minted_template {template : Template} (minted : store.Minted (· ∈ template.vars)) :
    store.Minted fun v => template.scheme.Mentions (.free v) := by
  rintro v (inBody | ⟨entry, listed, inKind⟩)
  · exact minted v (Template.mem_vars inBody)
  · obtain ⟨param, _, rfl⟩ := List.mem_map.mp listed
    cases inKind

theorem fill_holding (coherent : store.Coherent) {template : Template} {args : List (Ty MetaVar)}
    (templateMinted : store.Minted (· ∈ template.vars))
    (argsMinted : ∀ arg ∈ args, store.Minted (· ∈ arg.leaves)) (level : Level)
    (quantification : Quantification) :
    let made := store.fill level quantification template args
    store.Holding (· ∈ made.1.leaves) made.2 :=
  coherent.instantiateWith_holding (minted_template templateMinted)
    (fun _ _ found => argsMinted _ (Template.mem_of_lookup_pairUp found)) level quantification

theorem apply_advances (coherent : store.Coherent) {template : Template} {args : List (Ty MetaVar)}
    (templateMinted : store.Minted (· ∈ template.vars))
    (argsMinted : ∀ arg ∈ args, store.Minted (· ∈ arg.leaves)) (level : Level)
    (quantification : Quantification) :
    store.Advances (fun type v => v ∈ type.leaves)
      (store.apply level quantification template args) :=
  coherent.instantiateAt_advances (minted_template templateMinted) argsMinted level quantification

/-! ## Schemes of types -/

/-- All variables that are reached from a type have cells, and the scheme leaves only some of them to the
store. -/
theorem close_advances (coherent : store.Coherent) {type : Ty MetaVar}
    (minted : store.Minted (· ∈ type.leaves)) (choose : FreeVar → Bool) :
    store.Advances (fun scheme v => scheme.Mentions (.free v)) (store.close choose type) := by
  have reachedMinted : ∀ v, store.Reaches choose type v → v.number < store.nextVar :=
    fun v reached => (coherent.holds choose minted v reached.sees).1
  have settles : store.Reads (fun _ _ => False) (store.settle (store.reach choose type).entered) :=
    coherent.settle_reads fun v entered => reachedMinted v (mem_entered_reach.mp entered)
  rw [close]
  refine settles.before fun _ _ => ?_
  change store.Advances _ (.ok (store.closure choose type,
    { store with nextBound := store.nextBound + (store.ownedBy choose type).length }))
  refine ⟨coherent.of_cells rfl rfl, Nat.le_refl _, ?_⟩
  intro v mentions
  obtain ⟨w, reached, isFree⟩ := exists_of_mentions_closure mentions
  obtain ⟨_, rfl⟩ := closedVar_eq_free.mp isFree
  exact reachedMinted w reached

end TypedMatch.Store.Coherent
