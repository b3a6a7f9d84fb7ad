import TypedMatch.Store.Links
import TypedMatch.Ty.Lemmas

/-!
# Stores without circular links

Links are acyclic if variables can be ranked so that a linked variable ranks above all variables of
the type it is linked to.  On such a store the depth to which links are followed is enough: the main
statement, `not_linked_of_mem_zonk`, says that no linked variable is left in a type whose links have
been followed.
-/

set_option autoImplicit false

namespace TypedMatch.Store

/-- Whether every linked variable ranks above the variables of the type it is linked to. -/
def RankedBy (store : Store) (rank : MetaVar → Nat) : Prop :=
  ∀ {v : MetaVar} {target : Ty MetaVar}, store.cells.get? v = some (.linked target) →
    ∀ w ∈ target.leaves, rank w < rank v

/-- Whether no link leads back to itself. -/
def Acyclic (store : Store) : Prop := ∃ rank : MetaVar → Nat, store.RankedBy rank

def below (store : Store) (rank : MetaVar → Nat) (bound : Nat) : Nat :=
  store.cells.entries.countP fun entry => rank entry.1 < bound

theorem below_le_size (store : Store) (rank : MetaVar → Nat) (bound : Nat) :
    store.below rank bound ≤ store.cells.size :=
  List.countP_le_length

theorem below_lt_below_succ {store : Store} {rank : MetaVar → Nat} {v : MetaVar} {cell : Cell}
    {bound : Nat} (stored : store.cells.get? v = some cell) (lower : bound ≤ rank v) :
    store.below rank bound < store.below rank (rank v + 1) := by
  obtain ⟨before, after, split, _⟩ := List.lookup_eq_some_iff.mp stored
  have monotone (entries : List (MetaVar × Cell)) :
      entries.countP (fun entry => decide (rank entry.1 < bound)) ≤
        entries.countP (fun entry => decide (rank entry.1 < rank v + 1)) :=
    List.countP_mono_left fun entry _ less => by
      have := of_decide_eq_true less
      exact decide_eq_true (by omega)
  have beforeLe := monotone before
  have afterLe := monotone after
  have outside : ¬ rank v < bound := by omega
  simp only [below, split, List.countP_append, List.countP_cons]
  simp only [outside, Nat.lt_succ_self, decide_true, decide_false, if_true]
  simp only [Bool.false_eq_true, if_false]
  omega

theorem not_linked_of_mem_zonkVar {store : Store} {rank : MetaVar → Nat}
    (ranked : store.RankedBy rank) :
    ∀ (fuel : Nat) (v : MetaVar), store.below rank (rank v + 1) ≤ fuel →
      ∀ w ∈ (store.zonkVar fuel v).leaves, ∀ target, store.cells.get? w ≠ some (.linked target)
  | 0, v, enough, w, occurs, target, stored => by
      simp only [zonkVar, Ty.leaves, List.mem_singleton] at occurs
      subst occurs
      have raised : store.below rank 0 < store.below rank (rank w + 1) :=
        below_lt_below_succ stored (Nat.zero_le _)
      omega
  | fuel + 1, v, enough, w, occurs, target, stored => by
      cases cell : store.cells.get? v with
      | none =>
          simp only [zonkVar, cell, Ty.leaves, List.mem_singleton] at occurs
          subst occurs
          simp [cell] at stored
      | some content =>
          cases content with
          | free record =>
              simp only [zonkVar, cell, Ty.leaves, List.mem_singleton] at occurs
              subst occurs
              simp [cell] at stored
          | linked body =>
              simp only [zonkVar, cell, Ty.leaves_bind, List.mem_flatMap] at occurs
              obtain ⟨u, uOccurs, wOccurs⟩ := occurs
              have lower := ranked cell u uOccurs
              have raised : store.below rank (rank u + 1) < store.below rank (rank v + 1) :=
                below_lt_below_succ cell (Nat.succ_le_of_lt lower)
              exact not_linked_of_mem_zonkVar ranked fuel u (by omega) w wOccurs target stored

/-- No linked variable is left in a type whose links have been followed. -/
theorem not_linked_of_mem_zonk {store : Store} (acyclic : store.Acyclic) {type : Ty MetaVar}
    {w : MetaVar} (occurs : w ∈ (store.zonk type).leaves) (target : Ty MetaVar) :
    store.cells.get? w ≠ some (.linked target) := by
  obtain ⟨rank, ranked⟩ := acyclic
  simp only [zonk, Ty.leaves_bind, List.mem_flatMap] at occurs
  obtain ⟨v, _, wOccurs⟩ := occurs
  exact not_linked_of_mem_zonkVar ranked _ v (store.below_le_size rank _) w wOccurs target

/-! ## Depth -/

theorem zonkVar_of_not_linked {store : Store} {v : MetaVar}
    (notLinked : ∀ target, store.cells.get? v ≠ some (.linked target)) (fuel : Nat) :
    store.zonkVar fuel v = .var v := by
  cases fuel with
  | zero => rfl
  | succ fuel =>
      rw [zonkVar]
      split
      · rename_i target stored
        exact absurd stored (notLinked target)
      · rfl

/-- Two depths that both cover all cells of lower rank follow the links of a variable to the same
type. -/
theorem zonkVar_stable {store : Store} {rank : MetaVar → Nat} (ranked : store.RankedBy rank) :
    ∀ (fuel other : Nat) (v : MetaVar), store.below rank (rank v + 1) ≤ fuel →
      store.below rank (rank v + 1) ≤ other → store.zonkVar fuel v = store.zonkVar other v := by
  intro fuel
  induction fuel with
  | zero =>
      intro other v enough _
      have notLinked : ∀ target, store.cells.get? v ≠ some (.linked target) := by
        intro target stored
        have raised : store.below rank 0 < store.below rank (rank v + 1) :=
          below_lt_below_succ stored (Nat.zero_le _)
        omega
      rw [zonkVar_of_not_linked notLinked, zonkVar_of_not_linked notLinked]
  | succ fuel inductionHypothesis =>
      intro other v enough otherEnough
      by_cases linked : ∃ target, store.cells.get? v = some (.linked target)
      · obtain ⟨target, stored⟩ := linked
        have raised : ∀ w ∈ target.leaves,
            store.below rank (rank w + 1) < store.below rank (rank v + 1) := by
          intro w occurs
          exact below_lt_below_succ stored (Nat.succ_le_of_lt (ranked stored w occurs))
        cases other with
        | zero =>
            have positive : store.below rank 0 < store.below rank (rank v + 1) :=
              below_lt_below_succ stored (Nat.zero_le _)
            omega
        | succ other =>
            simp only [zonkVar, stored]
            apply Ty.bind_congr target
            intro w occurs
            have lower := raised w occurs
            exact inductionHypothesis other w (by omega) (by omega)
      · have notLinked : ∀ target, store.cells.get? v ≠ some (.linked target) :=
          fun target stored => linked ⟨target, stored⟩
        rw [zonkVar_of_not_linked notLinked, zonkVar_of_not_linked notLinked]

end TypedMatch.Store
