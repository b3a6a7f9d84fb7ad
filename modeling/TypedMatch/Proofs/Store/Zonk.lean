import TypedMatch.Proofs.Store.Outline

/-!
# Types whose links have been followed

Following links everywhere in a type meets only variables that the type leads to, and where links do
not lead back to themselves all variables that are left in an owned type are free.  With the synonyms
replaced by what they stand for, such a type is fully resolved, and its outline is the resolved type
without the identities of its variables.
-/

set_option autoImplicit false

namespace TypedMatch.Store

variable {store : Store}

theorem meets_of_mem_zonkVar {fuel : Nat} {v w : MetaVar}
    (occurs : w ∈ (store.zonkVar fuel v).leaves) : store.Meets [v] w := by
  induction fuel generalizing v with
  | zero => exact .here occurs
  | succ fuel inductionHypothesis =>
      rw [zonkVar] at occurs
      split at occurs
      · rename_i target stored
        rw [Ty.leaves_bind, List.mem_flatMap] at occurs
        obtain ⟨u, inTarget, behind⟩ := occurs
        have met : store.Meets target.leaves w := by
          apply (inductionHypothesis behind).mono
          intro other isSingle
          rw [List.mem_singleton.mp isSingle]
          exact inTarget
        exact met.of_linked (List.mem_singleton.mpr rfl) stored
      · exact .here occurs

theorem meets_of_mem_flatMap_target {vars : List MetaVar} {w : MetaVar}
    (occurs : w ∈ vars.flatMap fun v => (store.target v).leaves) : store.Meets vars w := by
  obtain ⟨v, inVars, behind⟩ := List.mem_flatMap.mp occurs
  apply (meets_of_mem_zonkVar behind).mono
  intro other isSingle
  rw [List.mem_singleton.mp isSingle]
  exact inVars

theorem free_of_mem_flatMap_target (acyclic : store.Acyclic) {vars : List MetaVar}
    (owned : store.Owns vars) {w : MetaVar}
    (occurs : w ∈ vars.flatMap fun v => (store.target v).leaves) :
    ∃ record, store.cells.get? w = some (.free record) := by
  obtain ⟨_, known⟩ := owned w (meets_of_mem_flatMap_target occurs)
  obtain ⟨cell, stored⟩ := Option.isSome_iff_exists.mp known
  cases cell with
  | free record => exact ⟨record, stored⟩
  | linked target =>
      obtain ⟨v, _, behind⟩ := List.mem_flatMap.mp occurs
      have inZonk : w ∈ (store.zonk (.var v)).leaves := behind
      exact absurd stored (not_linked_of_mem_zonk acyclic inZonk target)

theorem leaves_zonk (type : Ty MetaVar) :
    (store.zonk type).leaves = type.leaves.flatMap fun v => (store.target v).leaves :=
  Ty.leaves_bind _ type

theorem leaves_zonkKind (kind : Kind MetaVar) :
    (store.zonkKind kind).leaves = kind.leaves.flatMap fun v => (store.target v).leaves :=
  Kind.leaves_bind _ kind

/-! ## Full resolution -/

/-- The type in which every linked variable has given way to its target and every synonym to what it
stands for. -/
def resolution (store : Store) (type : Ty MetaVar) : Ty MetaVar := (store.zonk type).resolve .var

theorem outline_eq (type : Ty MetaVar) :
    store.outline type = (store.resolution type).bind fun _ => .var () := by
  rw [resolution, zonk, Ty.resolve_bind, Ty.bind_resolve]
  exact Ty.resolve_congr type fun v _ => outlineVar_eq store.cells.size v

end TypedMatch.Store
