import TypedMatch.Proofs.Scheme.Closing
import TypedMatch.Proofs.Scheme.Instantiation
import TypedMatch.Proofs.Store.Closed

/-!
# Copies of a type

Making a scheme of a type and instantiating it gives the type back, with every owned variable replaced
by a new one.  Sharing is kept, within the type and with the kinds of its variables: the kind of a new
variable is that of the one it replaces, with variables replaced in the same way, and kinds may refer to
each other or to themselves.  Everything else stays as it is.
-/

set_option autoImplicit false

namespace TypedMatch.Store

/-- Whether a variable is one of those that the scheme of a type owns: it is chosen, and reached from
the type. -/
def Eligible (store : Store) (choose : FreeVar → Bool) (type : Ty MetaVar) (var : MetaVar) : Prop :=
  store.Reaches choose type var ∧ ∃ record, store.chosen? choose var = some record

/-- Whether a type is the copy of another one in a later store, made by replacing every eligible
variable by a new one. -/
structure IsCopy (store : Store) (choose : FreeVar → Bool) (type : Ty MetaVar) (level : Level)
    (quantification : Quantification) (copy : MetaVar → MetaVar) (made : Ty MetaVar) (later : Store) :
    Prop where
  made_eq : made = (store.zonk type).map copy
  /-- All other variables are left as they are. -/
  unchanged : ∀ v, ¬ store.Eligible choose type v → copy v = v
  injective : ∀ v w, store.Eligible choose type v → store.Eligible choose type w →
    copy v = copy w → v = w
  fresh : ∀ v, store.Eligible choose type v →
    store.nextVar ≤ (copy v).number ∧ (copy v).number < later.nextVar
  cells : ∀ v record, store.Reaches choose type v → store.chosen? choose v = some record →
    later.cells.get? (copy v) = some (.free
      { var := copy v
        kind := (store.zonkKind record.kind).bind fun w => .var (copy w)
        quantification := quantification
        level := level })
  /-- No cell but those of the new variables is written. -/
  kept : ∀ v : MetaVar, (∀ w, store.Eligible choose type w → copy w ≠ v) →
    later.cells.get? v = store.cells.get? v

variable {store : Store} {choose : FreeVar → Bool} {type : Ty MetaVar} {v : MetaVar}

/-! ## The owned variables of a closed type -/

theorem closedVar_eq_bound {param : BoundVar} : store.closedVar choose type v = .bound param ↔
    v ∈ store.ownedBy choose type ∧ store.boundFor choose type v = param := by
  rw [closedVar]
  split
  · rename_i isOwned
    simp only [SchemeVar.bound.injEq, isOwned, true_and]
  · rename_i notOwned
    simp only [reduceCtorEq, notOwned, false_and]

theorem mem_leaves_closure {param : BoundVar} :
    .bound param ∈ (store.closure choose type).body.leaves ↔
      ∃ v ∈ (store.zonk type).leaves, v ∈ store.ownedBy choose type ∧
        store.boundFor choose type v = param := by
  simp only [closure, Ty.map, Ty.leaves_bind, Ty.leaves, List.mem_flatMap, List.mem_singleton,
    eq_comm (a := SchemeVar.bound param), closedVar_eq_bound]

theorem mem_leaves_closedKind {param : BoundVar} {kind : Kind MetaVar} :
    .bound param ∈ (store.closedKind choose type kind).leaves ↔
      ∃ v ∈ (store.zonkKind kind).leaves, v ∈ store.ownedBy choose type ∧
        store.boundFor choose type v = param := by
  simp only [closedKind, Kind.leaves_bind, Ty.leaves, List.mem_flatMap, List.mem_singleton,
    eq_comm (a := SchemeVar.bound param), closedVar_eq_bound]

theorem mem_pending_closure {param : BoundVar} :
    param ∈ pending (store.closure choose type) [] ↔
      ∃ v ∈ store.ownedBy choose type, store.boundFor choose type v = param := by
  rw [mem_pending_iff]
  constructor
  · intro reachable
    induction reachable with
    | root occurs =>
        obtain ⟨v, _, isOwned⟩ := mem_leaves_closure.mp (mem_unfilled.mp occurs).1
        exact ⟨v, isOwned⟩
    | edge _ isEdge inductionHypothesis =>
        obtain ⟨v, vOwned, rfl⟩ := inductionHypothesis
        obtain ⟨reached, record, isChosen⟩ := mem_ownedBy.mp vOwned
        rw [mem_unfilled, kindOf_boundFor reached isChosen] at isEdge
        obtain ⟨w, _, isOwned⟩ := mem_leaves_closedKind.mp isEdge.1
        exact ⟨w, isOwned⟩
  · rintro ⟨v, vOwned, rfl⟩
    have reached : store.Reaches choose type v := (mem_ownedBy.mp vOwned).1
    induction reached with
    | leaf occurs =>
        exact .root (mem_unfilled.mpr ⟨mem_leaves_closure.mpr ⟨_, occurs, vOwned, rfl⟩, rfl⟩)
    | kind reached isChosen occurs inductionHypothesis =>
        refine .edge (inductionHypothesis (mem_ownedBy.mpr ⟨reached, _, isChosen⟩)) ?_
        rw [mem_unfilled, kindOf_boundFor reached isChosen]
        exact ⟨mem_leaves_closedKind.mpr ⟨_, occurs, vOwned, rfl⟩, rfl⟩

/-! ## Copies -/

/-- The variable that stands for another one in an instance of the scheme of a type. -/
def copyOf (store : Store) (choose : FreeVar → Bool) (type : Ty MetaVar) (var : MetaVar) : MetaVar :=
  if var ∈ store.ownedBy choose type then
    ⟨store.nextVar + (pending (store.closure choose type) []).idxOf (store.boundFor choose type var)⟩
  else var

theorem instanceOf_closedVar {later : Store} (sameNext : later.nextVar = store.nextVar) :
    later.instanceOf (pending (store.closure choose type) []) [] (store.closedVar choose type v)
      = .var (store.copyOf choose type v) := by
  rw [closedVar, copyOf]
  split
  · rw [instanceOf, sameNext]
    rfl
  · rfl

theorem copyOf_injective {v w : MetaVar} (vOwned : v ∈ store.ownedBy choose type)
    (wOwned : w ∈ store.ownedBy choose type)
    (same : store.copyOf choose type v = store.copyOf choose type w) : v = w := by
  rw [copyOf, copyOf, if_pos vOwned, if_pos wOwned] at same
  have sameIndex := Nat.add_left_cancel (congrArg MetaVar.number same)
  have isPending := mem_pending_closure.mpr ⟨v, vOwned, rfl⟩
  exact boundFor_inj vOwned ((List.idxOf_inj isPending).mp sameIndex)

theorem instance_closedKind {later : Store} (sameNext : later.nextVar = store.nextVar)
    (kind : Kind MetaVar) :
    (store.closedKind choose type kind).bind
        (later.instanceOf (pending (store.closure choose type) []) [])
      = (store.zonkKind kind).bind fun w => .var (store.copyOf choose type w) := by
  rw [closedKind, Kind.bind_bind]
  congr 1
  funext v
  exact instanceOf_closedVar sameNext

theorem instanceVar_boundFor {later : Store} (sameNext : later.nextVar = store.nextVar)
    (vOwned : v ∈ store.ownedBy choose type) :
    later.instanceVar [] (store.closure choose type) (store.boundFor choose type v)
      = store.copyOf choose type v := by
  rw [copyOf, if_pos vOwned, instanceVar, sameNext]

theorem instantiate_closure_isCopy (level : Level) (quantification : Quantification) {later : Store}
    (sameNext : later.nextVar = store.nextVar) (sameCells : later.cells = store.cells) :
    store.IsCopy choose type level quantification (store.copyOf choose type)
      (later.instantiate level quantification (store.closure choose type)).1
      (later.instantiate level quantification (store.closure choose type)).2 where
  made_eq := by
    rw [instantiate, instantiateWith, closure, Ty.map, Ty.bind_bind]
    exact Ty.bind_congr _ fun v _ => instanceOf_closedVar sameNext
  unchanged := by
    intro v notEligible
    rw [copyOf, if_neg (mem_ownedBy.not.mpr notEligible)]
  injective := fun v w vEligible wEligible =>
    copyOf_injective (mem_ownedBy.mpr vEligible) (mem_ownedBy.mpr wEligible)
  fresh := by
    intro v eligible
    have vOwned := mem_ownedBy.mpr eligible
    have low := later.instanceVar_lt (mem_pending_closure.mpr ⟨v, vOwned, rfl⟩)
    rw [instantiate, nextVar_instantiateWith, ← instanceVar_boundFor sameNext vOwned, ← sameNext]
    exact ⟨Nat.le_add_right _ _, low⟩
  cells := by
    intro v record reached isChosen
    have vOwned := mem_ownedBy.mpr ⟨reached, record, isChosen⟩
    have stored := later.get?_instanceVar level quantification
      (mem_pending_closure.mpr ⟨v, vOwned, rfl⟩)
    rwa [kindOf_boundFor reached isChosen, instance_closedKind sameNext,
      instanceVar_boundFor sameNext vOwned] at stored
  kept := by
    intro v notCopy
    rcases later.exists_instanceVar_or_kept level quantification [] (store.closure choose type) v with
      ⟨param, isPending, isNew⟩ | ⟨_, kept⟩
    · obtain ⟨w, wOwned, rfl⟩ := mem_pending_closure.mp isPending
      rw [instanceVar_boundFor sameNext wOwned] at isNew
      exact absurd isNew (notCopy w (mem_ownedBy.mp wOwned))
    · rw [← sameCells]
      exact kept

/-- Generalising a type at a level and instantiating the scheme copies the type, with a new variable for
every variable that may be generalised at the level. -/
theorem generalize_instantiate_isCopy (acyclic : store.Acyclic) (outer inner : Level)
    (quantification : Quantification) (owned : store.OwnsReached (FreeVar.generalizesAt outer) type) :
    ∃ scheme grown copy, store.generalize outer type = .ok (scheme, grown) ∧
      store.IsCopy (FreeVar.generalizesAt outer) type inner quantification copy
        (grown.instantiate inner quantification scheme).1
        (grown.instantiate inner quantification scheme).2 :=
  ⟨_, _, _, close_eq acyclic owned, instantiate_closure_isCopy inner quantification rfl rfl⟩

/-- Two records whose kinds mention each other, and the second one itself; a variable of the outermost
level; and a variable that is linked to a list of the second record. -/
def tangledStore : Store where
  nextCon := 0
  nextVar := 4
  nextBound := 0
  cells :=
    ⟨[(⟨3⟩, .linked (.list (.var ⟨1⟩))),
      (⟨2⟩, .free ⟨⟨2⟩, .any, .allowed, .bottom⟩),
      (⟨1⟩, .free ⟨⟨1⟩, .record [("back", .var ⟨0⟩), ("next", .var ⟨1⟩)], .allowed, ⟨1⟩⟩),
      (⟨0⟩, .free ⟨⟨0⟩, .record [("first", .var ⟨1⟩), ("weak", .var ⟨2⟩)], .allowed, ⟨1⟩⟩)]⟩

def tangledType : Ty MetaVar := .product [.var ⟨3⟩, .var ⟨2⟩, .var ⟨3⟩]

/-- The records are copied, also the one that only a kind leads to, and the outermost variable is
kept. -/
theorem tangledType_copied :
    ∃ scheme grown copy, tangledStore.generalize .bottom tangledType = .ok (scheme, grown) ∧
      tangledStore.IsCopy (FreeVar.generalizesAt .bottom) tangledType ⟨7⟩ .forbidden copy
        (grown.instantiate ⟨7⟩ .forbidden scheme).1 (grown.instantiate ⟨7⟩ .forbidden scheme).2 ∧
      (grown.instantiate ⟨7⟩ .forbidden scheme).1
        = .product [.list (.var (copy ⟨1⟩)), .var ⟨2⟩, .list (.var (copy ⟨1⟩))] ∧
      (grown.instantiate ⟨7⟩ .forbidden scheme).2.cells.get? (copy ⟨0⟩)
        = some (.free ⟨copy ⟨0⟩, .record [("first", .var (copy ⟨1⟩)), ("weak", .var ⟨2⟩)],
            .forbidden, ⟨7⟩⟩) := by
  have closed : tangledStore.Closed := by decide
  have acyclic : tangledStore.Acyclic := acyclic_of_entries (fun v => v.number) (by decide)
  have owned : tangledStore.OwnsReached (FreeVar.generalizesAt .bottom) tangledType :=
    { leaves := closed.owns (by decide)
      kinds := fun _ isChosen => closed.owns_kind (chosen?_eq_some.mp isChosen).1 }
  obtain ⟨scheme, grown, copy, made, isCopy⟩ :=
    generalize_instantiate_isCopy acyclic .bottom ⟨7⟩ .forbidden owned
  have weakKept : copy ⟨2⟩ = ⟨2⟩ := by
    apply isCopy.unchanged
    rintro ⟨_, record, isChosen⟩
    cases isChosen
  have secondReached : tangledStore.Reaches (FreeVar.generalizesAt .bottom) tangledType ⟨1⟩ :=
    .leaf (by decide)
  have firstReached : tangledStore.Reaches (FreeVar.generalizesAt .bottom) tangledType ⟨0⟩ :=
    .kind secondReached rfl (by decide)
  have stored : (grown.instantiate ⟨7⟩ .forbidden scheme).2.cells.get? (copy ⟨0⟩)
      = some (.free ⟨copy ⟨0⟩, .record [("first", .var (copy ⟨1⟩)), ("weak", .var (copy ⟨2⟩))],
          .forbidden, ⟨7⟩⟩) :=
    isCopy.cells ⟨0⟩ _ firstReached rfl
  have madeEq : (grown.instantiate ⟨7⟩ .forbidden scheme).1
      = .product [.list (.var (copy ⟨1⟩)), .var (copy ⟨2⟩), .list (.var (copy ⟨1⟩))] :=
    isCopy.made_eq
  rw [weakKept] at stored madeEq
  exact ⟨scheme, grown, copy, made, isCopy, madeEq, stored⟩

end TypedMatch.Store
