import TypedMatch.Store.Acyclic

/-!
# Growing stores

A store owns variables if it has minted them and everything that their links lead to.  A store extends
another one if it has only minted more variables since: what the first store owns is the same in both,
and no link has come in.  Links that lead nowhere back keep doing so.
-/

set_option autoImplicit false

namespace TypedMatch.Store

/-- The variables that are met when the links of given variables are followed. -/
inductive Meets (store : Store) (vars : List MetaVar) : MetaVar → Prop where
  | here {v : MetaVar} : v ∈ vars → Meets store vars v
  | behind {v w : MetaVar} {target : Ty MetaVar} : Meets store vars v →
      store.cells.get? v = some (.linked target) → w ∈ target.leaves → Meets store vars w

/-- Whether a store has minted all variables that are met, and has a cell for each. -/
def Owns (store : Store) (vars : List MetaVar) : Prop :=
  ∀ v, store.Meets vars v → v.number < store.nextVar ∧ (store.cells.get? v).isSome

/-- Whether a store is an earlier one that has minted free variables since. -/
structure Extends (grown store : Store) : Prop where
  nextVar_le : store.nextVar ≤ grown.nextVar
  kept : ∀ v : MetaVar, v.number < store.nextVar → grown.cells.get? v = store.cells.get? v
  linked : ∀ {v : MetaVar} {target : Ty MetaVar}, grown.cells.get? v = some (.linked target) →
    store.cells.get? v = some (.linked target)
  nextCon_eq : grown.nextCon = store.nextCon
  nextBound_eq : grown.nextBound = store.nextBound

variable {store grown last : Store}

theorem Extends.refl (store : Store) : store.Extends store :=
  ⟨Nat.le_refl _, fun _ _ => rfl, fun stored => stored, rfl, rfl⟩

theorem Extends.trans (second : last.Extends grown) (first : grown.Extends store) :
    last.Extends store where
  nextVar_le := Nat.le_trans first.nextVar_le second.nextVar_le
  kept := by
    intro v minted
    rw [second.kept v (Nat.lt_of_lt_of_le minted first.nextVar_le), first.kept v minted]
  linked := fun stored => first.linked (second.linked stored)
  nextCon_eq := second.nextCon_eq.trans first.nextCon_eq
  nextBound_eq := second.nextBound_eq.trans first.nextBound_eq

theorem Extends.rankedBy (extension : grown.Extends store) {rank : MetaVar → Nat}
    (ranked : store.RankedBy rank) : grown.RankedBy rank :=
  fun stored => ranked (extension.linked stored)

theorem Extends.acyclic (extension : grown.Extends store) (acyclic : store.Acyclic) :
    grown.Acyclic := by
  obtain ⟨rank, ranked⟩ := acyclic
  exact ⟨rank, extension.rankedBy ranked⟩

/-! ## Owned variables -/

theorem Meets.mono {small big : List MetaVar} (subset : ∀ v ∈ small, v ∈ big) {v : MetaVar}
    (met : store.Meets small v) : store.Meets big v := by
  induction met with
  | here occurs => exact .here (subset _ occurs)
  | behind _ stored occurs inductionHypothesis =>
      exact .behind inductionHypothesis stored occurs

theorem Meets.of_linked {vars : List MetaVar} {v : MetaVar} {target : Ty MetaVar}
    (occurs : v ∈ vars) (stored : store.cells.get? v = some (.linked target)) {w : MetaVar}
    (met : store.Meets target.leaves w) : store.Meets vars w := by
  induction met with
  | here inTarget => exact .behind (.here occurs) stored inTarget
  | behind _ further inFurther inductionHypothesis =>
      exact .behind inductionHypothesis further inFurther

theorem Owns.mono {small big : List MetaVar} (owned : store.Owns big)
    (subset : ∀ v ∈ small, v ∈ big) : store.Owns small :=
  fun v met => owned v (met.mono subset)

theorem Owns.of_linked {vars : List MetaVar} {v : MetaVar} {target : Ty MetaVar}
    (owned : store.Owns vars) (occurs : v ∈ vars)
    (stored : store.cells.get? v = some (.linked target)) : store.Owns target.leaves :=
  fun w met => owned w (met.of_linked occurs stored)

theorem Meets.exists_singleton {vars : List MetaVar} {v : MetaVar} (met : store.Meets vars v) :
    ∃ u ∈ vars, store.Meets [u] v := by
  induction met with
  | @here v occurs => exact ⟨v, occurs, .here (List.mem_singleton.mpr rfl)⟩
  | behind _ stored occurs inductionHypothesis =>
      obtain ⟨u, inVars, metFromOne⟩ := inductionHypothesis
      exact ⟨u, inVars, .behind metFromOne stored occurs⟩

theorem owns_of_forall {vars : List MetaVar} (each : ∀ v ∈ vars, store.Owns [v]) :
    store.Owns vars := by
  intro v met
  obtain ⟨u, inVars, metFromOne⟩ := met.exists_singleton
  exact each u inVars v metFromOne

theorem Owns.singleton {vars : List MetaVar} {v : MetaVar} (owned : store.Owns vars)
    (occurs : v ∈ vars) : store.Owns [v] := by
  apply owned.mono
  intro w inSingleton
  rw [List.mem_singleton.mp inSingleton]
  exact occurs

theorem Owns.of_leavesList {types : List (Ty MetaVar)} (owned : store.Owns (Ty.leavesList types)) :
    ∀ type ∈ types, store.Owns type.leaves := by
  intro type among
  apply owned.mono
  intro v occurs
  exact Ty.mem_leavesList.mpr ⟨type, among, occurs⟩

theorem owns_nil : store.Owns [] := owns_of_forall fun _ occurs => nomatch occurs

theorem owns_singleton_of_free {v : MetaVar} {record : FreeVar}
    (minted : v.number < store.nextVar) (stored : store.cells.get? v = some (.free record)) :
    store.Owns [v] := by
  intro w met
  have same : w = v := by
    induction met with
    | here occurs => exact List.mem_singleton.mp occurs
    | behind _ further _ inductionHypothesis =>
        rw [inductionHypothesis, stored] at further
        cases further
  rw [same, stored]
  exact ⟨minted, rfl⟩

theorem Extends.meets (extension : grown.Extends store) {vars : List MetaVar} {v : MetaVar}
    (met : grown.Meets vars v) : store.Meets vars v := by
  induction met with
  | here occurs => exact .here occurs
  | behind _ stored occurs inductionHypothesis =>
      exact .behind inductionHypothesis (extension.linked stored) occurs

theorem Extends.owns (extension : grown.Extends store) {vars : List MetaVar}
    (owned : store.Owns vars) : grown.Owns vars := by
  intro v met
  obtain ⟨minted, known⟩ := owned v (extension.meets met)
  rw [extension.kept v minted]
  exact ⟨Nat.lt_of_lt_of_le minted extension.nextVar_le, known⟩

end TypedMatch.Store
