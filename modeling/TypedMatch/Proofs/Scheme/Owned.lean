import Mathlib.Data.Set.Function
import TypedMatch.Proofs.Scheme.Copy
import TypedMatch.Proofs.Scheme.Reaching
import TypedMatch.Proofs.Walk.Relocation

/-!
# Schemes that own what they should

The scheme of a type is closed: every bound variable in it has exactly one entry, and every entry is reached
from the body through kinds.  Its bound variables are new and stand one to one for the chosen free variables
that are met from the type, through links and through the kinds of other such variables.  What it leaves to
the store is free and not chosen.  A scheme is made whenever the store knows all variables that are met, and
making it writes no cell.
-/

set_option autoImplicit false

namespace TypedMatch

namespace Scheme

/-- Whether a variable stands in the body of a scheme or in the kind of an owned variable. -/
def Mentions (scheme : Scheme) (v : SchemeVar) : Prop :=
  v ∈ scheme.body.leaves ∨ ∃ entry ∈ scheme.quantified, v ∈ entry.kind.leaves

def owned (scheme : Scheme) : List BoundVar := scheme.quantified.map Quantified.var

/-- The bound variables of the body, those of their kinds, and so on. -/
inductive Reaches (scheme : Scheme) : BoundVar → Prop where
  | body {param : BoundVar} : .bound param ∈ scheme.body.leaves → Reaches scheme param
  | kind {param other : BoundVar} : Reaches scheme param →
      .bound other ∈ (scheme.kindOf param).leaves → Reaches scheme other

end Scheme

namespace Store

theorem mem_pending_iff_reaches {scheme : Scheme} {param : BoundVar} :
    param ∈ pending scheme [] ↔ scheme.Reaches param := by
  rw [mem_pending_iff]
  constructor
  · intro reachable
    induction reachable with
    | root occurs => exact .body (mem_unfilled.mp occurs).1
    | edge _ isEdge inductionHypothesis => exact .kind inductionHypothesis (mem_unfilled.mp isEdge).1
  · intro reached
    induction reached with
    | body occurs => exact .root (mem_unfilled.mpr ⟨occurs, rfl⟩)
    | kind _ occurs inductionHypothesis =>
        exact .edge inductionHypothesis (mem_unfilled.mpr ⟨occurs, rfl⟩)

/-- Whether a scheme is made of a type by binding the chosen free variables that are met, no others, and
each to a bound variable of its own.  `rename` tells what stands for a variable of the store. -/
structure ClosedBy (store : Store) (choose : FreeVar → Bool) (type : Ty MetaVar) (scheme : Scheme)
    (grown : Store) (rename : MetaVar → SchemeVar) : Prop where
  body_eq : scheme.body = (store.zonk type).map rename
  kind_eq : ∀ v record param, store.Sees choose type.leaves v →
    store.chosen? choose v = some record → rename v = .bound param →
    scheme.kindOf param = (store.zonkKind record.kind).bind fun w => .var (rename w)
  count_owned : ∀ param, scheme.Mentions (.bound param) → scheme.owned.count param = 1
  reached : ∀ param ∈ scheme.owned, scheme.Reaches param
  distinct : scheme.owned.Nodup
  minted : ∀ param ∈ scheme.owned,
    store.nextBound ≤ param.number ∧ param.number < grown.nextBound
  one_to_one : Set.BijOn rename
    {v | store.Sees choose type.leaves v ∧ ∃ record, store.chosen? choose v = some record}
    {v | ∃ param ∈ scheme.owned, v = .bound param}
  weak : ∀ v, scheme.Mentions (.free v) →
    ∃ record, store.cells.get? v = some (.free record) ∧ choose record = false
  unchanged : grown = { store with nextBound := grown.nextBound }

variable {store grown : Store} {choose : FreeVar → Bool} {type : Ty MetaVar} {scheme : Scheme}

/-! ## The entries of the scheme of a type -/

theorem owned_closure : (store.closure choose type).owned =
    ((store.reach choose type).finished.filter fun v => (store.chosen? choose v).isSome).map
      (store.boundFor choose type) := by
  rw [Scheme.owned, closure]
  induction (store.reach choose type).finished with
  | nil => rfl
  | cons v rest inductionHypothesis =>
      cases isChosen : store.chosen? choose v with
      | none =>
          simp only [List.filterMap_cons, List.filter_cons, isChosen, Option.map_none,
            Option.isSome_none, Bool.false_eq_true, if_false]
          exact inductionHypothesis
      | some record =>
          simp only [List.filterMap_cons, List.filter_cons, isChosen, Option.map_some,
            Option.isSome_some, if_true, List.map_cons]
          rw [inductionHypothesis]

theorem mem_finished_reach_iff {v : MetaVar} :
    v ∈ (store.reach choose type).finished ↔ store.Reaches choose type v := by
  constructor
  · intro finished
    rw [reach_eq] at finished
    rw [← mem_entered_reach, reach_eq]
    exact Trail.entered_of_mem_finished finished
  · exact mem_finished_reach

theorem mem_owned_closure {param : BoundVar} : param ∈ (store.closure choose type).owned ↔
    ∃ v ∈ store.ownedBy choose type, store.boundFor choose type v = param := by
  simp only [owned_closure, List.mem_map, List.mem_filter, mem_finished_reach_iff, mem_ownedBy,
    Option.isSome_iff_exists]

theorem nodup_owned_closure : (store.closure choose type).owned.Nodup := by
  have distinct : (store.reach choose type).finished.Nodup := by
    rw [reach_eq]
    exact Trail.nodup_finished_walk
  rw [owned_closure]
  refine (distinct.filter _).map_on ?_
  intro v vFinished w _ same
  rw [List.mem_filter, mem_finished_reach_iff, Option.isSome_iff_exists] at vFinished
  exact boundFor_inj (mem_ownedBy.mpr vFinished) same

theorem exists_of_mentions_closure {x : SchemeVar}
    (mentions : (store.closure choose type).Mentions x) :
    ∃ v, store.Reaches choose type v ∧ store.closedVar choose type v = x := by
  rcases mentions with inBody | ⟨entry, listed, inKind⟩
  · rw [closure, Ty.map, Ty.leaves_bind, List.mem_flatMap] at inBody
    obtain ⟨v, occurs, isVar⟩ := inBody
    exact ⟨v, .leaf occurs, (List.mem_singleton.mp isVar).symm⟩
  · obtain ⟨v, finished, isEntry⟩ := List.mem_filterMap.mp listed
    obtain ⟨record, isChosen, rfl⟩ := Option.map_eq_some_iff.mp isEntry
    rw [closedKind, Kind.leaves_bind, List.mem_flatMap] at inKind
    obtain ⟨w, occurs, isVar⟩ := inKind
    exact ⟨w, .kind (mem_finished_reach_iff.mp finished) isChosen occurs,
      (List.mem_singleton.mp isVar).symm⟩

theorem mem_owned_of_mentions {param : BoundVar}
    (mentions : (store.closure choose type).Mentions (.bound param)) :
    param ∈ (store.closure choose type).owned := by
  obtain ⟨v, _, isBound⟩ := exists_of_mentions_closure mentions
  exact mem_owned_closure.mpr ⟨v, closedVar_eq_bound.mp isBound⟩

theorem closedVar_eq_free {v w : MetaVar} :
    store.closedVar choose type v = .free w ↔ v ∉ store.ownedBy choose type ∧ v = w := by
  rw [closedVar]
  split
  · rename_i isOwned
    simp only [reduceCtorEq, isOwned, not_true, false_and]
  · rename_i notOwned
    simp only [SchemeVar.free.injEq, notOwned, not_false_iff, true_and]

theorem mem_ownedBy_iff_sees (acyclic : store.Acyclic) {v : MetaVar} :
    v ∈ store.ownedBy choose type ↔
      store.Sees choose type.leaves v ∧ ∃ record, store.chosen? choose v = some record := by
  rw [mem_ownedBy, reaches_iff_sees acyclic, and_assoc]
  refine and_congr_right fun _ => and_iff_right_of_imp ?_
  rintro ⟨record, isChosen⟩ target linked
  rw [(chosen?_eq_some.mp isChosen).1] at linked
  cases linked

/-! ## Made schemes -/

/-- The scheme of a type whose variables are known is closed. -/
theorem closedBy_closure (acyclic : store.Acyclic)
    (free : ∀ v, store.Reaches choose type v → ∃ record, store.cells.get? v = some (.free record)) :
    store.ClosedBy choose type (store.closure choose type)
      { store with nextBound := store.nextBound + (store.ownedBy choose type).length }
      (store.closedVar choose type) where
  body_eq := rfl
  kind_eq := by
    intro v record param seen isChosen isBound
    obtain ⟨vOwned, rfl⟩ := closedVar_eq_bound.mp isBound
    exact kindOf_boundFor (mem_ownedBy.mp vOwned).1 isChosen
  count_owned := fun _ mentions =>
    List.count_eq_one_of_mem nodup_owned_closure (mem_owned_of_mentions mentions)
  reached := by
    intro param isOwned
    rw [← mem_pending_iff_reaches]
    exact mem_pending_closure.mpr (mem_owned_closure.mp isOwned)
  distinct := nodup_owned_closure
  minted := by
    intro param isOwned
    obtain ⟨v, vOwned, rfl⟩ := mem_owned_closure.mp isOwned
    have inside := List.idxOf_lt_length_of_mem vOwned
    exact ⟨Nat.le_add_right _ _, Nat.add_lt_add_left inside _⟩
  one_to_one := by
    refine ⟨?_, ?_, ?_⟩
    · rintro v eligible
      have vOwned := (mem_ownedBy_iff_sees acyclic).mpr eligible
      exact ⟨_, mem_owned_closure.mpr ⟨v, vOwned, rfl⟩, closedVar_eq_bound.mpr ⟨vOwned, rfl⟩⟩
    · intro v vEligible w wEligible same
      have vOwned := (mem_ownedBy_iff_sees acyclic).mpr vEligible
      have wOwned := (mem_ownedBy_iff_sees acyclic).mpr wEligible
      rw [closedVar_eq_bound.mpr ⟨wOwned, rfl⟩] at same
      exact boundFor_inj vOwned (closedVar_eq_bound.mp same).2
    · rintro _ ⟨param, isOwned, rfl⟩
      obtain ⟨v, vOwned, isBound⟩ := mem_owned_closure.mp isOwned
      exact ⟨v, (mem_ownedBy_iff_sees acyclic).mp vOwned, closedVar_eq_bound.mpr ⟨vOwned, isBound⟩⟩
  weak := by
    intro v mentions
    obtain ⟨w, reached, isFree⟩ := exists_of_mentions_closure mentions
    obtain ⟨notOwned, rfl⟩ := closedVar_eq_free.mp isFree
    obtain ⟨record, stored⟩ := free w reached
    refine ⟨record, stored, Bool.eq_false_of_not_eq_true fun isChosen => ?_⟩
    exact notOwned (mem_ownedBy.mpr ⟨reached, record, chosen?_eq_some.mpr ⟨stored, isChosen⟩⟩)
  unchanged := rfl

theorem close_ok_iff (acyclic : store.Acyclic) : (∃ made, store.close choose type = .ok made) ↔
    ∀ v, store.Sees choose type.leaves v → (store.cells.get? v).isSome := by
  constructor
  · rintro ⟨made, closes⟩ v seen
    cases stored : store.cells.get? v with
    | some cell => rfl
    | none =>
        have reached : store.Reaches choose type v := by
          rw [reaches_iff_sees acyclic, stored]
          exact ⟨seen, nofun⟩
        obtain ⟨record, isFree⟩ := free_of_close closes reached
        rw [stored] at isFree
        cases isFree
  · intro known
    refine ⟨_, close_eq_of_free ?_⟩
    intro v reached
    obtain ⟨seen, notLinked⟩ := (reaches_iff_sees acyclic).mp reached
    obtain ⟨cell, stored⟩ := Option.isSome_iff_exists.mp (known v seen)
    cases cell with
    | free record => exact ⟨record, stored⟩
    | linked target => exact absurd stored (notLinked target)

theorem exists_closedBy_of_close (acyclic : store.Acyclic)
    (closes : store.close choose type = .ok (scheme, grown)) :
    ∃ rename, store.ClosedBy choose type scheme grown rename := by
  have free := fun v => free_of_close closes (v := v)
  rw [close_eq_of_free free] at closes
  cases closes
  exact ⟨_, closedBy_closure acyclic free⟩

/-- Generalising a type succeeds if the store knows all variables that are met, and the scheme is closed and
owns exactly the variables that may be generalised at the level.  The same holds when all free variables are
bound, and then nothing is left to the store. -/
theorem generalize_owns_eligible (acyclic : store.Acyclic) (level : Level) (type : Ty MetaVar) :
    ((∃ made, store.generalize level type = .ok made) ↔
      ∀ v, store.Sees (FreeVar.generalizesAt level) type.leaves v → (store.cells.get? v).isSome) ∧
    (∀ scheme grown, store.generalize level type = .ok (scheme, grown) →
      ∃ rename, store.ClosedBy (FreeVar.generalizesAt level) type scheme grown rename) ∧
    ((∃ made, store.generalizeAll type = .ok made) ↔
      ∀ v, store.Sees (fun _ => true) type.leaves v → (store.cells.get? v).isSome) ∧
    ∀ scheme grown, store.generalizeAll type = .ok (scheme, grown) →
      (∃ rename, store.ClosedBy (fun _ => true) type scheme grown rename) ∧
        ∀ v, ¬ scheme.Mentions (.free v) := by
  refine ⟨close_ok_iff acyclic, fun _ _ => exists_closedBy_of_close acyclic, close_ok_iff acyclic, ?_⟩
  intro scheme grown closes
  obtain ⟨rename, closed⟩ := exists_closedBy_of_close acyclic closes
  refine ⟨⟨rename, closed⟩, fun v mentions => ?_⟩
  obtain ⟨_, _, notChosen⟩ := closed.weak v mentions
  cases notChosen

theorem tangledStore_acyclic : tangledStore.Acyclic := acyclic_of_entries (fun v => v.number) (by decide)

theorem tangledStore_holds (choose : FreeVar → Bool) :
    tangledStore.Holds choose tangledType.leaves := by
  have closed : tangledStore.Closed := by decide
  exact closed.holds (by decide)

/-- The second record is met first, and its entry comes after that of the first one, which its kind leads
to. -/
theorem tangledType_owned :
    ∃ scheme grown rename, tangledStore.generalize .bottom tangledType = .ok (scheme, grown) ∧
      tangledStore.ClosedBy (FreeVar.generalizesAt .bottom) tangledType scheme grown rename ∧
      rename ⟨1⟩ = .bound ⟨0⟩ ∧ scheme.owned = [⟨1⟩, ⟨0⟩] := by
  obtain ⟨returns, closed, _, _⟩ :=
    generalize_owns_eligible tangledStore_acyclic .bottom tangledType
  obtain ⟨⟨scheme, grown⟩, made⟩ := returns.mpr fun v seen => (tangledStore_holds _ v seen).2
  obtain ⟨rename, isClosed⟩ := closed scheme grown made
  have bodyEq : scheme.body = .product
      [.list (.var (.bound ⟨0⟩)), .var (.free ⟨2⟩), .list (.var (.bound ⟨0⟩))] := by
    cases made
    rfl
  have ownedEq : scheme.owned = [⟨1⟩, ⟨0⟩] := by
    cases made
    rfl
  have renamed := isClosed.body_eq.symm.trans bodyEq
  have renamedLeaf : rename ⟨1⟩ = .bound ⟨0⟩ :=
    Ty.var.inj (Ty.list.inj (List.cons.inj (Ty.product.inj renamed)).1)
  exact ⟨scheme, grown, rename, made, isClosed, renamedLeaf, ownedEq⟩

end Store

end TypedMatch
