import TypedMatch.Proofs.Scheme.Closing
import TypedMatch.Proofs.Store.Closed

/-!
# What a type leads to

From the variables of a type one gets to others step by step: from a linked variable to those of its
target, from a chosen free variable to those of its kind.  Where links do not lead back, the variables
without a link that are met in this way are those of the type with all links followed, and of the kinds
with all links followed that are reached from there.
-/

set_option autoImplicit false

namespace TypedMatch.Store

/-- The variables that are met from given ones, one link or one kind of a chosen variable at a time. -/
inductive Sees (store : Store) (choose : FreeVar → Bool) (vars : List MetaVar) : MetaVar → Prop where
  | here {v : MetaVar} : v ∈ vars → Sees store choose vars v
  | link {v w : MetaVar} {target : Ty MetaVar} : Sees store choose vars v →
      store.cells.get? v = some (.linked target) → w ∈ target.leaves → Sees store choose vars w
  | kind {v w : MetaVar} {record : FreeVar} : Sees store choose vars v →
      store.chosen? choose v = some record → w ∈ record.kind.leaves → Sees store choose vars w

/-- Whether a store has minted all variables that are met from given ones, and has a cell for each. -/
def Holds (store : Store) (choose : FreeVar → Bool) (vars : List MetaVar) : Prop :=
  ∀ v, store.Sees choose vars v → store.Has v

/-- Whether the variables that are met from given ones have the links that they had in an earlier store. -/
def KeepsLinks (later store : Store) (vars : List MetaVar) : Prop :=
  ∀ v, store.Meets vars v → ∀ target : Ty MetaVar,
    later.cells.get? v = some (.linked target) ↔ store.cells.get? v = some (.linked target)

variable {store : Store} {choose : FreeVar → Bool} {type : Ty MetaVar} {vars : List MetaVar}

theorem KeepsLinks.refl (store : Store) (vars : List MetaVar) : store.KeepsLinks store vars :=
  fun _ _ _ => Iff.rfl

theorem KeepsLinks.mono {later : Store} {small : List MetaVar} (kept : later.KeepsLinks store vars)
    (subset : ∀ v ∈ small, v ∈ vars) : later.KeepsLinks store small :=
  fun v met => kept v (met.mono subset)

theorem KeepsLinks.singleton {later : Store} (kept : later.KeepsLinks store vars) {v : MetaVar}
    (occurs : v ∈ vars) : later.KeepsLinks store [v] := by
  apply kept.mono
  intro w inSingleton
  rw [List.mem_singleton.mp inSingleton]
  exact occurs

theorem KeepsLinks.of_linked {later : Store} {v : MetaVar} {target : Ty MetaVar}
    (kept : later.KeepsLinks store vars) (occurs : v ∈ vars)
    (stored : store.cells.get? v = some (.linked target)) : later.KeepsLinks store target.leaves :=
  fun w met => kept w (met.of_linked occurs stored)

theorem KeepsLinks.meets {later : Store} (kept : later.KeepsLinks store vars) {v : MetaVar}
    (met : store.Meets vars v) : later.Meets vars v := by
  induction met with
  | here occurs => exact .here occurs
  | behind before stored occurs inductionHypothesis =>
      exact .behind inductionHypothesis ((kept _ before _).mpr stored) occurs

theorem KeepsLinks.trans {later last : Store} (first : later.KeepsLinks store vars)
    (second : last.KeepsLinks later vars) : last.KeepsLinks store vars :=
  fun v met target => (second v (first.meets met) target).trans (first v met target)

theorem keepsLinks_of_kept {later : Store}
    (kept : ∀ v : MetaVar, v.number < store.nextVar → later.cells.get? v = store.cells.get? v)
    (owned : store.Owns vars) : later.KeepsLinks store vars := by
  intro v met target
  rw [kept v (owned v met).1]

/-! ## Targets -/

theorem target_of_not_linked {v : MetaVar}
    (notLinked : ∀ target, store.cells.get? v ≠ some (.linked target)) : store.target v = .var v :=
  zonkVar_of_not_linked notLinked _

theorem target_of_free {v : MetaVar} {record : FreeVar}
    (stored : store.cells.get? v = some (.free record)) : store.target v = .var v := by
  apply target_of_not_linked
  intro target linked
  rw [stored] at linked
  cases linked

theorem target_of_linked (acyclic : store.Acyclic) {v : MetaVar} {target : Ty MetaVar}
    (stored : store.cells.get? v = some (.linked target)) : store.target v = store.zonk target := by
  obtain ⟨rank, ranked⟩ := acyclic
  have covered : store.below rank (rank v + 1) ≤ store.cells.size := below_le_size _ _ _
  have deeper := zonkVar_stable ranked _ (store.cells.size + 1) v covered (by omega)
  rw [Store.target, deeper]
  simp only [zonkVar, stored]
  rfl

theorem KeepsLinks.target_eq {later : Store} (acyclic : store.Acyclic) (laterAcyclic : later.Acyclic) :
    ∀ {v : MetaVar}, later.KeepsLinks store [v] → later.target v = store.target v := by
  obtain ⟨rank, ranked⟩ := id acyclic
  have byRank : ∀ (bound : Nat) (v : MetaVar), rank v < bound → later.KeepsLinks store [v] →
      later.target v = store.target v := by
    intro bound
    induction bound with
    | zero => intro v low; omega
    | succ bound inductionHypothesis =>
        intro v low kept
        have same := kept v (.here (List.mem_singleton.mpr rfl))
        by_cases linked : ∃ target, store.cells.get? v = some (.linked target)
        · obtain ⟨target, stored⟩ := linked
          rw [target_of_linked acyclic stored, target_of_linked laterAcyclic ((same target).mpr stored)]
          apply Ty.bind_congr target
          intro w occurs
          have lower := ranked stored w occurs
          have keptTarget := kept.of_linked (List.mem_singleton.mpr rfl) stored
          exact inductionHypothesis w (by omega) (keptTarget.singleton occurs)
        · have notLinked : ∀ target, store.cells.get? v ≠ some (.linked target) :=
            fun target stored => linked ⟨target, stored⟩
          rw [target_of_not_linked notLinked, target_of_not_linked]
          intro target stored
          exact notLinked target ((same target).mp stored)
  intro v kept
  exact byRank (rank v + 1) v (Nat.lt_succ_self _) kept

theorem target_of_kept {later : Store} (acyclic : store.Acyclic) (laterAcyclic : later.Acyclic)
    (kept : ∀ v : MetaVar, v.number < store.nextVar → later.cells.get? v = store.cells.get? v) :
    ∀ {v : MetaVar}, store.Owns [v] → later.target v = store.target v := by
  intro v owned
  exact (keepsLinks_of_kept kept owned).target_eq acyclic laterAcyclic

theorem zonk_of_kept {later : Store} (acyclic : store.Acyclic) (laterAcyclic : later.Acyclic)
    (kept : ∀ v : MetaVar, v.number < store.nextVar → later.cells.get? v = store.cells.get? v)
    (owned : store.Owns type.leaves) : later.zonk type = store.zonk type :=
  Ty.bind_congr type fun _ occurs => target_of_kept acyclic laterAcyclic kept (owned.singleton occurs)

/-! ## What is met -/

theorem Sees.of_meets {v : MetaVar} (met : store.Meets vars v) : store.Sees choose vars v := by
  induction met with
  | here occurs => exact .here occurs
  | behind _ stored occurs inductionHypothesis => exact .link inductionHypothesis stored occurs

theorem Sees.trans {others : List MetaVar} (each : ∀ v ∈ others, store.Sees choose vars v)
    {v : MetaVar} (seen : store.Sees choose others v) : store.Sees choose vars v := by
  induction seen with
  | here occurs => exact each _ occurs
  | link _ stored occurs inductionHypothesis => exact .link inductionHypothesis stored occurs
  | kind _ isChosen occurs inductionHypothesis => exact .kind inductionHypothesis isChosen occurs

theorem Reaches.sees {v : MetaVar} (reached : store.Reaches choose type v) :
    store.Sees choose type.leaves v := by
  induction reached with
  | leaf occurs =>
      rw [leaves_zonk] at occurs
      exact .of_meets (meets_of_mem_flatMap_target occurs)
  | kind _ isChosen occurs inductionHypothesis =>
      rw [leaves_zonkKind] at occurs
      exact (Sees.of_meets (meets_of_mem_flatMap_target occurs)).trans
        fun w inKind => .kind inductionHypothesis isChosen inKind

theorem Reaches.not_linked (acyclic : store.Acyclic) {v : MetaVar}
    (reached : store.Reaches choose type v) (target : Ty MetaVar) :
    store.cells.get? v ≠ some (.linked target) := by
  cases reached with
  | leaf occurs => exact not_linked_of_mem_zonk acyclic occurs target
  | kind _ _ occurs =>
      rw [leaves_zonkKind, List.mem_flatMap] at occurs
      obtain ⟨u, _, behind⟩ := occurs
      have inZonk : v ∈ (store.zonk (.var u)).leaves := behind
      exact not_linked_of_mem_zonk acyclic inZonk target

theorem reaches_of_sees (acyclic : store.Acyclic) {v : MetaVar}
    (seen : store.Sees choose type.leaves v) :
    ∀ w ∈ (store.target v).leaves, store.Reaches choose type w := by
  induction seen with
  | @here v occurs =>
      intro w behind
      refine .leaf ?_
      rw [leaves_zonk]
      exact List.mem_flatMap.mpr ⟨v, occurs, behind⟩
  | @link v w target _ stored occurs inductionHypothesis =>
      intro u behind
      apply inductionHypothesis
      rw [target_of_linked acyclic stored, leaves_zonk]
      exact List.mem_flatMap.mpr ⟨w, occurs, behind⟩
  | @kind v w record _ isChosen occurs inductionHypothesis =>
      intro u behind
      obtain ⟨stored, _⟩ := chosen?_eq_some.mp isChosen
      have vReached : store.Reaches choose type v := by
        apply inductionHypothesis
        rw [target_of_free stored]
        exact List.mem_singleton.mpr rfl
      refine .kind vReached isChosen ?_
      rw [leaves_zonkKind]
      exact List.mem_flatMap.mpr ⟨w, occurs, behind⟩

/-- What is reached through types and kinds whose links have been followed is what is met one step at a
time and is no linked variable. -/
theorem reaches_iff_sees (acyclic : store.Acyclic) {v : MetaVar} :
    store.Reaches choose type v ↔ store.Sees choose type.leaves v ∧
      ∀ target, store.cells.get? v ≠ some (.linked target) := by
  constructor
  · exact fun reached => ⟨reached.sees, reached.not_linked acyclic⟩
  · rintro ⟨seen, notLinked⟩
    apply reaches_of_sees acyclic seen
    rw [target_of_not_linked notLinked]
    exact List.mem_singleton.mpr rfl

/-! ## Stores that hold what is met -/

theorem Holds.owns (held : store.Holds choose vars) : store.Owns vars :=
  fun v met => held v (.of_meets met)

theorem Holds.ownsReached (held : store.Holds choose type.leaves) : store.OwnsReached choose type where
  leaves := held.owns
  kinds := by
    intro v record reached isChosen w met
    exact held w ((Sees.of_meets met).trans fun u inKind => .kind reached.sees isChosen inKind)

theorem Holds.of_sees (held : store.Holds choose vars) {v : MetaVar}
    (seen : store.Sees choose vars v) : store.Holds choose [v] := by
  intro w met
  refine held w (met.trans fun u inSingleton => ?_)
  rw [List.mem_singleton.mp inSingleton]
  exact seen

theorem holds_of_cells (cells : ∀ v cell, store.cells.get? v = some cell → ∀ w ∈ cell.leaves, store.Has w)
    (each : ∀ v ∈ vars, store.Has v) : store.Holds choose vars := by
  intro v seen
  induction seen with
  | here occurs => exact each _ occurs
  | link _ stored occurs _ => exact cells _ _ stored _ occurs
  | kind _ isChosen occurs _ => exact cells _ _ (chosen?_eq_some.mp isChosen).1 _ occurs

theorem Closed.holds (closed : store.Closed) (each : ∀ v ∈ vars, store.Has v) : store.Holds choose vars :=
  holds_of_cells (fun _ _ stored => closed _ (mem_entries_of_get? stored)) each

end TypedMatch.Store
