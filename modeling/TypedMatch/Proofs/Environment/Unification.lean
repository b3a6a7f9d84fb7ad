import TypedMatch.Proofs.Environment.Expand
import TypedMatch.Proofs.Environment.Likeness
import TypedMatch.Proofs.Store.Minting

/-!
# What unification makes of types

Linking variables that are still free makes types more definite: the outline of a type after the links is
its outline before them with types in the place of its variables.  What an environment shows of the first
outline, where patterns can look into it, it shows of the second one as well.
-/

set_option autoImplicit false

namespace TypedMatch

/-! ## Refined types -/

namespace Ty

/-- Whether the second type is the first one with types in the place of its variables. -/
def Refines : Ty Unit → Ty Unit → Prop := SameUpTo fun place _ => place = .var ()

theorem refines_isCongruence : IsCongruence Refines := isCongruence_sameUpTo _

theorem refines_of_var (image : Ty Unit) : Refines (.var ()) image := sameUpTo_of_differ rfl

variable {type image : Ty Unit}

theorem Refines.eq_unit (refines : Refines .unit image) : image = .unit := by
  rcases refines.differ_or_sameForm not_false with differs | sameForm
  · cases differs
  · cases sameForm
    rfl

theorem Refines.unit_or_var (refines : Refines type .unit) : type = .unit ∨ type = .var () := by
  obtain ⟨pattern, rfl, isUnit, differs⟩ := refines
  cases pattern with
  | var pair => exact .inr (differs pair (.head _))
  | base kind =>
      cases isUnit
      exact .inl rfl
  | _ => cases isUnit

theorem Refines.mayBecome (refines : Refines type image) : MayBecome Refines type image where
  isRelated := refines
  staysUnit := by
    rintro rfl
    exact refines.eq_unit
  wasOpen := by
    rintro rfl
    exact refines.unit_or_var

end Ty

/-! ## Linking free variables -/

namespace Store

/-- Whether a store may be what another one has become, while free variables were linked to known types
and new variables were minted. -/
inductive Unifies (store : Store) : Store → Prop where
  | now : Unifies store store
  | newVar {later : Store} (kind : Kind MetaVar) (quantification : Quantification) (level : Level) :
      Unifies store later → Unifies store (later.newVar kind quantification level).2
  | link {later : Store} {v : MetaVar} {record : FreeVar} {target : Ty MetaVar} :
      Unifies store later → later.cells.get? v = some (.free record) →
      later.Owns target.leaves → Unifies store (later.link v target)

variable {store later : Store} {v : MetaVar} {target : Ty MetaVar}

theorem Meets.of_link {vars : List MetaVar} {w : MetaVar}
    (met : (store.link v target).Meets vars w) : store.Meets vars w ∨ store.Meets target.leaves w := by
  induction met with
  | here occurs => exact .inl (.here occurs)
  | @behind u w inner _ stored occurs inductionHypothesis =>
      rw [get?_cells_link] at stored
      split at stored
      · cases stored
        exact .inr (.here occurs)
      · rcases inductionHypothesis with met | met
        · exact .inl (.behind met stored occurs)
        · exact .inr (.behind met stored occurs)

theorem Owns.link {vars : List MetaVar} (owned : store.Owns vars)
    (targetOwned : store.Owns target.leaves) (v : MetaVar) : (store.link v target).Owns vars := by
  intro w met
  have before : w.number < store.nextVar ∧ (store.cells.get? w).isSome := by
    rcases met.of_link with met | met
    · exact owned w met
    · exact targetOwned w met
  refine ⟨before.1, ?_⟩
  rw [get?_cells_link]
  split
  · rfl
  · exact before.2

namespace Unifies

theorem owns (unifies : store.Unifies later) {vars : List MetaVar} (owned : store.Owns vars) :
    later.Owns vars := by
  induction unifies with
  | now => exact owned
  | newVar kind quantification level _ inductionHypothesis =>
      exact (newVar_extends _ kind quantification level).owns inductionHypothesis
  | link _ _ targetOwned inductionHypothesis => exact inductionHypothesis.link targetOwned _

theorem nextVar_le (unifies : store.Unifies later) : store.nextVar ≤ later.nextVar := by
  induction unifies with
  | now => exact Nat.le_refl _
  | newVar kind quantification level _ inductionHypothesis => exact Nat.le_succ_of_le inductionHypothesis
  | link _ _ _ inductionHypothesis => exact inductionHypothesis

theorem get?_of_linked (unifies : store.Unifies later) (minted : v.number < store.nextVar)
    (stored : store.cells.get? v = some (.linked target)) :
    later.cells.get? v = some (.linked target) := by
  induction unifies with
  | now => exact stored
  | @newVar later kind quantification level before inductionHypothesis =>
      have old := Nat.lt_of_lt_of_le minted before.nextVar_le
      rw [(newVar_extends later kind quantification level).kept v old]
      exact inductionHypothesis
  | @link later u record other _ isFree _ inductionHypothesis =>
      have different : v ≠ u := by
        rintro rfl
        cases isFree.symm.trans inductionHypothesis
      rw [get?_cells_link, if_neg different]
      exact inductionHypothesis

theorem refines_outlineOf (unifies : store.Unifies later) (acyclic : store.Acyclic)
    (laterAcyclic : later.Acyclic) (owned : store.Owns [v]) :
    Ty.Refines (store.outlineOf v) (later.outlineOf v) := by
  obtain ⟨rank, ranked⟩ := id acyclic
  -- Links that are there stay, and lead to variables of lower rank.
  induction bound : rank v using Nat.strongRecOn generalizing v with
  | ind bound inductionHypothesis =>
      subst bound
      obtain ⟨minted, known⟩ := owned v (.here (.head _))
      obtain ⟨cell, stored⟩ := Option.isSome_iff_exists.mp known
      cases cell with
      | free record =>
          rw [outlineOf_of_free stored]
          exact Ty.refines_of_var _
      | linked target =>
          rw [outlineOf_of_linked acyclic stored,
            outlineOf_of_linked laterAcyclic (unifies.get?_of_linked minted stored)]
          apply Ty.refines_isCongruence.resolve
          intro w occurs
          have targetOwned := owned.of_linked (.head _) stored
          exact inductionHypothesis (rank w) (ranked stored w occurs) (targetOwned.singleton occurs) rfl

end Unifies

def RefinedBy (store later : Store) : Prop :=
  ∀ v, store.Owns [v] → Ty.Refines (store.outlineOf v) (later.outlineOf v)

theorem RefinedBy.refines_outline (refined : store.RefinedBy later) {type : Ty MetaVar}
    (owned : store.Owns type.leaves) : Ty.Refines (store.outline type) (later.outline type) :=
  Ty.refines_isCongruence.resolve type fun v occurs => refined v (owned.singleton occurs)

end Store

/-! ## Environments seen from both stores -/

variable {store later : Store}

theorem Template.fill_outline (store : Store) (template : Template) (args : List (Ty Unit)) :
    (template.outline store).fill args = template.body.resolve fun
      | .free v => store.outlineOf v
      | .bound param => template.argument args (.bound param) := by
  rw [fill, outline, Ty.bind_resolve]
  apply Ty.resolve_congr _
  intro v _
  cases v with
  | free v =>
      simp only [Ty.map, Ty.bind_bind, Ty.bind]
      exact Ty.bind_var _
  | bound param => rfl

theorem Template.mimics_outline (refined : store.RefinedBy later) {template : Template}
    (owned : store.Owns template.vars) :
    Mimics Ty.Refines (template.outline store) (template.outline later) where
  sameArity := rfl
  fills := by
    intro args images argsRefine
    rw [fill_outline, fill_outline]
    apply Ty.refines_isCongruence.resolve
    intro v occurs
    cases v with
    | free v => exact refined v (owned.singleton (mem_vars occurs))
    | bound param => exact template.argument_related (Ty.refines_of_var _) argsRefine (.bound param)

namespace Environment

variable {env : Environment} {type image root : Ty Unit}

theorem exists_root_of_refines (owned : env.OwnedBy store) (refined : store.RefinedBy later)
    (refines : Ty.Refines type image) (stands : (env.outline store).Root type root)
    (visible : ¬ root.IsSealed) :
    ∃ imageRoot, (env.outline later).Root image imageRoot ∧ root.SameForm Ty.Refines imageRoot := by
  have sameAliases : (env.outline later).abbreviates = (env.outline store).abbreviates := rfl
  refine exists_root_of_places sameAliases ?_ ?_ refines stands visible
  · intro con outlined found
    obtain ⟨template, isBody, rfl⟩ := Option.map_eq_some_iff.mp found
    exact ⟨template.outline later, Option.map_eq_some_iff.mpr ⟨template, isBody, rfl⟩,
      Template.mimics_outline refined (owned.bodies isBody)⟩
  · rintro _ image root rfl stands visible
    rw [stands.eq_of_not_alias rfl] at visible
    exact absurd trivial visible

theorem mimics_outline (owned : env.OwnedBy store) (refined : store.RefinedBy later) :
    (env.outline later).Mimics (env.outline store) Ty.Refines := by
  intro type image root refines stands visible
  obtain ⟨imageRoot, imageStands, sameForm⟩ :=
    exists_root_of_refines owned refined refines stands visible
  refine ⟨imageRoot, imageStands, ?_⟩
  cases sameForm with
  | base kind => exact .base kind
  | list elementRefines restRefines => exact .list elementRefines restRefines
  | product componentsRefine => exact .product componentsRefine
  | data con argsRefine =>
      refine .data con argsRefine.length_eq ?_
      intro outlined found
      obtain ⟨constructors, declared, rfl⟩ := Option.map_eq_some_iff.mp found
      refine ⟨_, Option.map_eq_some_iff.mpr ⟨constructors, declared, rfl⟩, ?_⟩
      refine List.forall₂_map_left_iff.mpr (List.forall₂_map_right_iff.mpr (List.forall₂_same.mpr ?_))
      intro constructor among
      have payload := Template.mimics_outline refined (owned.payloads declared constructor among)
      exact ⟨rfl, payload.sameArity, (payload.fills argsRefine).mayBecome⟩

end Environment

end TypedMatch
