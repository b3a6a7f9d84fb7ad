import TypedMatch.Proofs.Store.Extension
import TypedMatch.Proofs.Ty.Resolve

/-!
# Outlines

The outline of a type is what can be told of its values: links are followed, a synonym is what it
stands for, and all free variables are alike, since nothing is known of the values of either.  On a
store without circular links the outline obeys the equations that one expects of it, it does not
change while the store grows, and looking through links and synonyms at the root of a type always
ends at a type of the same outline.
-/

set_option autoImplicit false

namespace TypedMatch.Store

def outlineVar (store : Store) : Nat → MetaVar → Ty Unit
  | 0, _ => .var ()
  | fuel + 1, v =>
      match store.cells.get? v with
      | some (.linked target) => target.resolve (store.outlineVar fuel)
      | _ => .var ()

def outlineOf (store : Store) (var : MetaVar) : Ty Unit := store.outlineVar store.cells.size var

def outline (store : Store) (type : Ty MetaVar) : Ty Unit := type.resolve store.outlineOf

variable {store grown : Store}

/-! ## The equations of an outline -/

/-- The outline of a variable is the resolved type at the end of its links, without the identities of
variables. -/
theorem outlineVar_eq (fuel : Nat) (v : MetaVar) :
    store.outlineVar fuel v = ((store.zonkVar fuel v).resolve .var).bind fun _ => .var () := by
  induction fuel generalizing v with
  | zero => rfl
  | succ fuel inductionHypothesis =>
      cases stored : store.cells.get? v with
      | none => simp only [outlineVar, zonkVar, stored, Ty.resolve, Ty.bind]
      | some cell =>
          cases cell with
          | free record => simp only [outlineVar, zonkVar, stored, Ty.resolve, Ty.bind]
          | linked target =>
              have outlined : store.outlineVar (fuel + 1) v = target.resolve (store.outlineVar fuel) := by
                simp only [outlineVar, stored]
              have zonked : store.zonkVar (fuel + 1) v = target.bind (store.zonkVar fuel) := by
                simp only [zonkVar, stored]
              rw [outlined, zonked, Ty.resolve_bind, Ty.bind_resolve]
              exact Ty.resolve_congr target fun w _ => inductionHypothesis w

theorem outlineVar_of_not_linked {v : MetaVar}
    (notLinked : ∀ target, store.cells.get? v ≠ some (.linked target)) (fuel : Nat) :
    store.outlineVar fuel v = .var () := by
  rw [outlineVar_eq, zonkVar_of_not_linked notLinked]
  rfl

theorem outlineVar_stable {rank : MetaVar → Nat} (ranked : store.RankedBy rank) (fuel other : Nat)
    (v : MetaVar) (enough : store.below rank (rank v + 1) ≤ fuel)
    (otherEnough : store.below rank (rank v + 1) ≤ other) :
    store.outlineVar fuel v = store.outlineVar other v := by
  rw [outlineVar_eq, outlineVar_eq, zonkVar_stable ranked fuel other v enough otherEnough]

theorem outlineOf_of_not_linked {v : MetaVar}
    (notLinked : ∀ target, store.cells.get? v ≠ some (.linked target)) :
    store.outlineOf v = .var () :=
  outlineVar_of_not_linked notLinked _

theorem outlineOf_of_linked (acyclic : store.Acyclic) {v : MetaVar} {target : Ty MetaVar}
    (stored : store.cells.get? v = some (.linked target)) :
    store.outlineOf v = store.outline target := by
  obtain ⟨rank, ranked⟩ := acyclic
  have covered : store.below rank (rank v + 1) ≤ store.cells.size := below_le_size _ _ _
  have unrolled : store.outlineOf v = target.resolve (store.outlineVar store.cells.size) := by
    have deeper := outlineVar_stable ranked _ (store.cells.size + 1) v covered (by omega)
    rw [outlineOf, deeper]
    simp only [outlineVar, stored]
  rw [unrolled]
  rfl

theorem outlineOf_of_free {v : MetaVar} {record : FreeVar}
    (stored : store.cells.get? v = some (.free record)) : store.outlineOf v = .var () := by
  apply outlineOf_of_not_linked
  intro target linked
  rw [stored] at linked
  cases linked

@[simp] theorem outline_bare (type : Ty MetaVar) :
    store.outline type.bare = store.outline type :=
  Ty.resolve_bare _ type

theorem outlineOf_of_extends (acyclic : store.Acyclic) (extension : grown.Extends store) :
    ∀ {v : MetaVar}, store.Owns [v] → grown.outlineOf v = store.outlineOf v := by
  obtain ⟨rank, ranked⟩ := acyclic
  have byRank : ∀ (bound : Nat) (v : MetaVar), rank v < bound → store.Owns [v] →
      grown.outlineOf v = store.outlineOf v := by
    intro bound
    induction bound with
    | zero => intro v low; omega
    | succ bound inductionHypothesis =>
        intro v low owned
        obtain ⟨minted, _⟩ := owned v (.here (List.mem_singleton.mpr rfl))
        have same := extension.kept v minted
        by_cases linked : ∃ target, store.cells.get? v = some (.linked target)
        · obtain ⟨target, stored⟩ := linked
          rw [outlineOf_of_linked ⟨rank, ranked⟩ stored,
            outlineOf_of_linked (extension.acyclic ⟨rank, ranked⟩) (same.trans stored)]
          apply Ty.resolve_congr target
          intro w occurs
          have lower := ranked stored w occurs
          have ownedTarget := owned.of_linked (List.mem_singleton.mpr rfl) stored
          exact inductionHypothesis w (by omega) (ownedTarget.singleton occurs)
        · have notLinked : ∀ target, store.cells.get? v ≠ some (.linked target) :=
            fun target stored => linked ⟨target, stored⟩
          rw [outlineOf_of_not_linked notLinked, outlineOf_of_not_linked]
          intro target stored
          exact notLinked target (same.symm.trans stored)
  intro v owned
  exact byRank (rank v + 1) v (Nat.lt_succ_self _) owned

theorem outline_of_extends (acyclic : store.Acyclic) (extension : grown.Extends store)
    {type : Ty MetaVar} (owned : store.Owns type.leaves) :
    grown.outline type = store.outline type :=
  Ty.resolve_congr type fun _ occurs =>
    outlineOf_of_extends acyclic extension (owned.singleton occurs)

theorem map_outline_of_extends (acyclic : store.Acyclic) (extension : grown.Extends store)
    {types : List (Ty MetaVar)} (owned : ∀ type ∈ types, store.Owns type.leaves) :
    types.map grown.outline = types.map store.outline :=
  List.map_congr_left fun type among => outline_of_extends acyclic extension (owned type among)

/-! ## Roots -/

/-- Whether a type shows at its root what it is: it is no synonym and no linked variable. -/
def Settled (store : Store) : Ty MetaVar → Prop
  | .var v => ∃ record, store.cells.get? v = some (.free record)
  | .synonym _ _ _ => False
  | _ => True

theorem outline_product (components : List (Ty MetaVar)) :
    store.outline (.product components) = .product (components.map store.outline) := by
  rw [outline, Ty.resolve, Ty.resolveList_eq_map]
  rfl

theorem outline_data (con : TyCon) (args : List (Ty MetaVar)) :
    store.outline (.data con args) = .data con (args.map store.outline) := by
  rw [outline, Ty.resolve, Ty.resolveList_eq_map]
  rfl

theorem Settled.outline_var {v : MetaVar} (settled : store.Settled (.var v)) :
    store.outline (.var v) = .var () := by
  obtain ⟨record, stored⟩ := settled
  exact outlineOf_of_free stored

theorem Settled.eq_base {root : Ty MetaVar} (settled : store.Settled root) {base : BaseTy}
    (sees : store.outline root = .base base) : root = .base base := by
  cases root with
  | base other =>
      cases sees
      rfl
  | var v => cases settled.outline_var.symm.trans sees
  | synonym _ _ _ => exact settled.elim
  | _ => cases sees

theorem Settled.eq_data {root : Ty MetaVar} (settled : store.Settled root) {con : TyCon}
    {args : List (Ty Unit)} (sees : store.outline root = .data con args) :
    ∃ given, root = .data con given ∧ given.map store.outline = args := by
  cases root with
  | data head given =>
      rw [outline_data] at sees
      cases sees
      exact ⟨given, rfl, rfl⟩
  | var v => cases settled.outline_var.symm.trans sees
  | synonym _ _ _ => exact settled.elim
  | _ => cases sees

theorem unfoldWithin_of_settled {type : Ty MetaVar} (settled : store.Settled type.bare)
    (fuel : Nat) : store.unfoldWithin fuel type = .ok type.bare := by
  unfold unfoldWithin
  split
  · rename_i v bareVar
    rw [bareVar] at settled
    obtain ⟨record, stored⟩ := settled
    rw [stored, bareVar]
  · rfl

theorem unfoldWithin_of_linked {type target : Ty MetaVar} {v : MetaVar}
    (bareVar : type.bare = .var v) (stored : store.cells.get? v = some (.linked target))
    (fuel : Nat) : store.unfoldWithin (fuel + 1) type = store.unfoldWithin fuel target := by
  rw [unfoldWithin, bareVar]
  simp only [stored]

theorem settled_bare_or_linked {type : Ty MetaVar} (owned : store.Owns type.leaves) :
    store.Settled type.bare ∨
      ∃ v target, type.bare = .var v ∧ store.cells.get? v = some (.linked target) := by
  cases bareForm : type.bare with
  | var v =>
      have occurs : v ∈ type.leaves := by
        apply Ty.mem_leaves_of_mem_leaves_bare type
        rw [bareForm]
        exact List.mem_singleton.mpr rfl
      obtain ⟨_, known⟩ := owned v (.here occurs)
      obtain ⟨cell, stored⟩ := Option.isSome_iff_exists.mp known
      cases cell with
      | free record => exact Or.inl ⟨record, stored⟩
      | linked target => exact Or.inr ⟨v, target, rfl, stored⟩
  | synonym con args expansion => exact absurd bareForm (Ty.bare_ne_synonym type)
  | _ => exact Or.inl trivial

private theorem unfoldWithin_of_owns (acyclic : store.Acyclic) {rank : MetaVar → Nat}
    (ranked : store.RankedBy rank) :
    ∀ (fuel : Nat) (type : Ty MetaVar), store.Owns type.leaves →
      (∀ v, type.bare = .var v → store.below rank (rank v + 1) ≤ fuel) →
      ∃ root, store.unfoldWithin fuel type = .ok root ∧ store.outline root = store.outline type ∧
        store.Owns root.leaves ∧ store.Settled root := by
  intro fuel
  induction fuel with
  | zero =>
      intro type owned enough
      rcases settled_bare_or_linked owned with settled | ⟨v, target, bareVar, stored⟩
      · exact ⟨type.bare, unfoldWithin_of_settled settled 0, outline_bare type,
          owned.mono fun _ => Ty.mem_leaves_of_mem_leaves_bare type, settled⟩
      · have raised : store.below rank 0 < store.below rank (rank v + 1) :=
          below_lt_below_succ stored (Nat.zero_le _)
        have covered := enough v bareVar
        omega
  | succ fuel inductionHypothesis =>
      intro type owned enough
      have ownedBare : store.Owns type.bare.leaves :=
        owned.mono fun _ => Ty.mem_leaves_of_mem_leaves_bare type
      rcases settled_bare_or_linked owned with settled | ⟨v, target, bareVar, stored⟩
      · exact ⟨type.bare, unfoldWithin_of_settled settled _, outline_bare type, ownedBare, settled⟩
      · rw [bareVar] at ownedBare
        have ownedTarget := ownedBare.of_linked (List.mem_singleton.mpr rfl) stored
        have targetEnough : ∀ w, target.bare = .var w → store.below rank (rank w + 1) ≤ fuel := by
          intro w targetVar
          have occurs : w ∈ target.leaves := by
            apply Ty.mem_leaves_of_mem_leaves_bare target
            rw [targetVar]
            exact List.mem_singleton.mpr rfl
          have raised : store.below rank (rank w + 1) < store.below rank (rank v + 1) :=
            below_lt_below_succ stored (Nat.succ_le_of_lt (ranked stored w occurs))
          have covered := enough v bareVar
          omega
        obtain ⟨root, run, sameOutline, ownedRoot, settled⟩ :=
          inductionHypothesis target ownedTarget targetEnough
        refine ⟨root, ?_, ?_, ownedRoot, settled⟩
        · rw [unfoldWithin_of_linked bareVar stored, run]
        · rw [sameOutline, ← outline_bare type, bareVar]
          exact (outlineOf_of_linked acyclic stored).symm

/-- Looking through the links and synonyms at the root of an owned type ends at a type of the same
outline that shows what it is. -/
theorem unfold_of_owns (acyclic : store.Acyclic) {type : Ty MetaVar}
    (owned : store.Owns type.leaves) :
    ∃ root, store.unfold type = .ok root ∧ store.outline root = store.outline type ∧
      store.Owns root.leaves ∧ store.Settled root := by
  obtain ⟨rank, ranked⟩ := id acyclic
  exact unfoldWithin_of_owns acyclic ranked _ type owned fun _ _ => below_le_size _ _ _

end TypedMatch.Store
