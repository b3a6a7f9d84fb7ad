import Mathlib.Data.List.Basic
import TypedMatch.Proofs.Store.Zonk
import TypedMatch.Proofs.Walk.Reachable
import TypedMatch.Scheme.Generalize

/-!
# What a closed type owns

The scheme of a type owns the chosen variables that are reached from the type once its links have been
followed, also through the kinds of other owned variables.  Where all variables that are met on the way
belong to the store, and no links lead back, such a scheme is made.  Its body is the type with every
owned variable replaced by a bound one of its own, and the kind of an owned variable is replaced in the
same way.
-/

set_option autoImplicit false

namespace TypedMatch.Store

/-- The variables that are reached from a type once links have been followed, also through the kinds of
chosen variables. -/
inductive Reaches (store : Store) (choose : FreeVar → Bool) (type : Ty MetaVar) : MetaVar → Prop
  | leaf {v : MetaVar} : v ∈ (store.zonk type).leaves → Reaches store choose type v
  | kind {v w : MetaVar} {record : FreeVar} : Reaches store choose type v →
      store.chosen? choose v = some record → w ∈ (store.zonkKind record.kind).leaves →
      Reaches store choose type w

/-- Whether the variables of a type belong to a store, and those of the kinds that are reached from it
as well. -/
structure OwnsReached (store : Store) (choose : FreeVar → Bool) (type : Ty MetaVar) : Prop where
  leaves : store.Owns type.leaves
  kinds : ∀ {v : MetaVar} {record : FreeVar}, store.Reaches choose type v →
    store.chosen? choose v = some record → store.Owns record.kind.leaves

variable {store : Store} {choose : FreeVar → Bool} {type : Ty MetaVar}

theorem chosen?_eq_some {v : MetaVar} {record : FreeVar} :
    store.chosen? choose v = some record ↔
      store.cells.get? v = some (.free record) ∧ choose record = true := by
  rw [chosen?]
  split
  · rename_i other stored
    rw [stored, Option.ite_none_right_eq_some, Option.some_inj, Option.some_inj, Cell.free.injEq]
    constructor
    · rintro ⟨isChosen, rfl⟩
      exact ⟨rfl, isChosen⟩
    · rintro ⟨rfl, isChosen⟩
      exact ⟨isChosen, rfl⟩
  · rename_i notFree
    constructor
    · intro isChosen
      cases isChosen
    · rintro ⟨stored, _⟩
      exact absurd stored (notFree record)

theorem Reaches.free (acyclic : store.Acyclic) (owned : store.OwnsReached choose type) {v : MetaVar}
    (reached : store.Reaches choose type v) : ∃ record, store.cells.get? v = some (.free record) := by
  cases reached with
  | leaf occurs =>
      rw [leaves_zonk] at occurs
      exact free_of_mem_flatMap_target acyclic owned.leaves occurs
  | kind inner isChosen occurs =>
      rw [leaves_zonkKind] at occurs
      exact free_of_mem_flatMap_target acyclic (owned.kinds inner isChosen) occurs

/-! ## The walk -/

def beyond (store : Store) (choose : FreeVar → Bool) (var : MetaVar) : List MetaVar :=
  match store.chosen? choose var with
  | some record => (store.zonkKind record.kind).leaves
  | none => []

theorem mem_beyond {v w : MetaVar} : w ∈ store.beyond choose v ↔
    ∃ record, store.chosen? choose v = some record ∧ w ∈ (store.zonkKind record.kind).leaves := by
  rw [beyond]
  split
  · rename_i record isChosen
    simp only [isChosen, Option.some_inj, exists_eq_left']
  · rename_i notChosen
    simp only [notChosen, List.not_mem_nil, reduceCtorEq, false_and, exists_false]

theorem mem_entries_of_beyond (v : MetaVar) (hasEdges : store.beyond choose v ≠ []) :
    v ∈ store.cells.entries.map Prod.fst := by
  obtain ⟨w, isEdge⟩ := List.exists_mem_of_ne_nil _ hasEdges
  obtain ⟨record, isChosen, _⟩ := mem_beyond.mp isEdge
  obtain ⟨stored, _⟩ := chosen?_eq_some.mp isChosen
  obtain ⟨before, after, split, _⟩ := List.lookup_eq_some_iff.mp stored
  simp [split]

theorem reach_eq (store : Store) (choose : FreeVar → Bool) (type : Ty MetaVar) :
    store.reach choose type = Trail.walk (store.beyond choose)
      ((store.cells.entries.map Prod.fst).length + 1) (store.zonk type).leaves := by
  rw [List.length_map]
  rfl

theorem mem_entered_reach {v : MetaVar} :
    v ∈ (store.reach choose type).entered ↔ store.Reaches choose type v := by
  rw [reach_eq, Trail.mem_entered_iff mem_entries_of_beyond]
  constructor
  · intro reachable
    induction reachable with
    | root occurs => exact .leaf occurs
    | edge _ isEdge inductionHypothesis =>
        obtain ⟨record, isChosen, occurs⟩ := mem_beyond.mp isEdge
        exact .kind inductionHypothesis isChosen occurs
  · intro reached
    induction reached with
    | leaf occurs => exact .root occurs
    | kind _ isChosen occurs inductionHypothesis =>
        exact .edge inductionHypothesis (mem_beyond.mpr ⟨_, isChosen, occurs⟩)

theorem mem_finished_reach {v : MetaVar} (reached : store.Reaches choose type v) :
    v ∈ (store.reach choose type).finished := by
  have entered := mem_entered_reach.mpr reached
  rw [reach_eq] at entered ⊢
  exact Trail.mem_finished_of_entered mem_entries_of_beyond entered

theorem settle_eq_ok_iff {vars : List MetaVar} : store.settle vars = .ok () ↔
    ∀ v ∈ vars, ∃ record, store.cells.get? v = some (.free record) := by
  have unsettled (v : MetaVar) : store.unsettled? v = none ↔
      ∃ record, store.cells.get? v = some (.free record) := by
    rw [unsettled?]
    split <;> simp_all
  rw [settle]
  split
  · rename_i fault found
    constructor
    · intro settled
      cases settled
    · intro free
      obtain ⟨v, among, isFault⟩ := List.exists_of_findSome?_eq_some found
      rw [(unsettled v).mpr (free v among)] at isFault
      cases isFault
  · rename_i notFound
    rw [List.findSome?_eq_none_iff] at notFound
    exact iff_of_true rfl fun v among => (unsettled v).mp (notFound v among)

theorem settle_reach_iff : store.settle (store.reach choose type).entered = .ok () ↔
    ∀ v, store.Reaches choose type v → ∃ record, store.cells.get? v = some (.free record) := by
  simp only [settle_eq_ok_iff, mem_entered_reach]

/-! ## The scheme -/

/-- The variables that the scheme of a type owns, in the order in which they get their numbers. -/
def ownedBy (store : Store) (choose : FreeVar → Bool) (type : Ty MetaVar) : List MetaVar :=
  (store.reach choose type).entered.filter fun var => (store.chosen? choose var).isSome

/-- The bound variable that stands for an owned one in the scheme of a type. -/
def boundFor (store : Store) (choose : FreeVar → Bool) (type : Ty MetaVar) (var : MetaVar) :
    BoundVar :=
  ⟨store.nextBound + (store.ownedBy choose type).idxOf var⟩

def closedVar (store : Store) (choose : FreeVar → Bool) (type : Ty MetaVar) (var : MetaVar) :
    SchemeVar :=
  if var ∈ store.ownedBy choose type then .bound (store.boundFor choose type var) else .free var

def closedKind (store : Store) (choose : FreeVar → Bool) (type : Ty MetaVar)
    (kind : Kind MetaVar) : Kind SchemeVar :=
  (store.zonkKind kind).bind fun v => .var (store.closedVar choose type v)

def closure (store : Store) (choose : FreeVar → Bool) (type : Ty MetaVar) : Scheme where
  quantified := (store.reach choose type).finished.filterMap fun var =>
    (store.chosen? choose var).map fun record =>
      ⟨store.boundFor choose type var, store.closedKind choose type record.kind⟩
  body := (store.zonk type).map (store.closedVar choose type)

theorem close_eq_of_free
    (free : ∀ v, store.Reaches choose type v → ∃ record, store.cells.get? v = some (.free record)) :
    store.close choose type = .ok (store.closure choose type,
      { store with nextBound := store.nextBound + (store.ownedBy choose type).length }) := by
  rw [close, settle_reach_iff.mpr free]
  rfl

theorem close_eq (acyclic : store.Acyclic) (owned : store.OwnsReached choose type) :
    store.close choose type = .ok (store.closure choose type,
      { store with nextBound := store.nextBound + (store.ownedBy choose type).length }) :=
  close_eq_of_free fun _ reached => reached.free acyclic owned

theorem free_of_close {made : Scheme × Store} (closes : store.close choose type = .ok made) {v : MetaVar}
    (reached : store.Reaches choose type v) : ∃ record, store.cells.get? v = some (.free record) := by
  rw [close] at closes
  obtain ⟨_, settled, _⟩ := ok_of_bind closes
  exact settle_reach_iff.mp settled v reached

theorem mem_ownedBy {v : MetaVar} : v ∈ store.ownedBy choose type ↔
    store.Reaches choose type v ∧ ∃ record, store.chosen? choose v = some record := by
  rw [ownedBy, List.mem_filter, mem_entered_reach, Option.isSome_iff_exists]

theorem boundFor_inj {v w : MetaVar} (vOwned : v ∈ store.ownedBy choose type)
    (same : store.boundFor choose type v = store.boundFor choose type w) : v = w := by
  have sameIndex := Nat.add_left_cancel (congrArg BoundVar.number same)
  exact (List.idxOf_inj vOwned).mp sameIndex

/-- The kind of a bound variable is that of the variable it stands for, with owned variables replaced
in the same way as in the body. -/
theorem kindOf_boundFor {v : MetaVar} {record : FreeVar} (reached : store.Reaches choose type v)
    (isChosen : store.chosen? choose v = some record) :
    (store.closure choose type).kindOf (store.boundFor choose type v)
      = store.closedKind choose type record.kind := by
  have vOwned : v ∈ store.ownedBy choose type := mem_ownedBy.mpr ⟨reached, record, isChosen⟩
  let entry : Quantified :=
    ⟨store.boundFor choose type v, store.closedKind choose type record.kind⟩
  have listed : entry ∈ (store.closure choose type).quantified := by
    refine List.mem_filterMap.mpr ⟨v, mem_finished_reach reached, ?_⟩
    rw [isChosen]
    rfl
  -- All entries for one bound variable come from one owned variable, so the first is as good as any.
  cases found : (store.closure choose type).find? (store.boundFor choose type v) with
  | none =>
      have notFound := List.find?_eq_none.mp found entry listed
      exact absurd (beq_self_eq_true _) notFound
  | some other =>
      have isFor := List.find?_some (p := fun entry : Quantified =>
        entry.var == store.boundFor choose type v) found
      have sameBound := eq_of_beq isFor
      obtain ⟨w, _, isOther⟩ := List.mem_filterMap.mp (List.mem_of_find?_eq_some found)
      obtain ⟨otherRecord, otherChosen, rfl⟩ := Option.map_eq_some_iff.mp isOther
      cases boundFor_inj vOwned sameBound.symm
      cases isChosen.symm.trans otherChosen
      rw [Scheme.kindOf, found]

end TypedMatch.Store
