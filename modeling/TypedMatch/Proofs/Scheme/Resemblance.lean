import TypedMatch.Proofs.Scheme.Closing
import TypedMatch.Proofs.Walk.Relocation

/-!
# Types that are alike but for their variables

A type of one store resembles a type of another one if, with all links followed, the second is the first
with its variables renamed, no two alike, and if the kinds of chosen variables are renamed in the same way.
Then the variables that are reached from the second type are the renamed ones of the first, and the walk
through them takes the same way.
-/

set_option autoImplicit false

namespace TypedMatch.Store

/-- Whether a type of a later store is, up to links, a type of this one with its variables renamed.  Only
the variables that are reached count. -/
structure Resembles (store later : Store) (choose : FreeVar → Bool) (type image : Ty MetaVar)
    (rename : MetaVar → MetaVar) : Prop where
  zonk_eq : later.zonk image = (store.zonk type).map rename
  injective : ∀ v w, store.Reaches choose type v → store.Reaches choose type w →
    rename v = rename w → v = w
  chosen : ∀ v record, store.Reaches choose type v → store.chosen? choose v = some record →
    ∃ other, later.chosen? choose (rename v) = some other ∧
      later.zonkKind other.kind = (store.zonkKind record.kind).bind fun w => .var (rename w)
  unchosen : ∀ v, store.Reaches choose type v → store.chosen? choose v = none →
    later.chosen? choose (rename v) = none

variable {store later : Store} {choose : FreeVar → Bool} {type image : Ty MetaVar}
  {rename : MetaVar → MetaVar}

namespace Resembles

theorem chosen?_isSome (resembles : store.Resembles later choose type image rename) {v : MetaVar}
    (reached : store.Reaches choose type v) :
    (later.chosen? choose (rename v)).isSome = (store.chosen? choose v).isSome := by
  cases isChosen : store.chosen? choose v with
  | none => rw [resembles.unchosen v reached isChosen]
  | some record =>
      obtain ⟨other, otherChosen, _⟩ := resembles.chosen v record reached isChosen
      rw [otherChosen]
      rfl

theorem beyond_eq (resembles : store.Resembles later choose type image rename) {v : MetaVar}
    (reached : store.Reaches choose type v) :
    later.beyond choose (rename v) = (store.beyond choose v).map rename := by
  cases isChosen : store.chosen? choose v with
  | none =>
      have notChosen := resembles.unchosen v reached isChosen
      rw [beyond, beyond, isChosen, notChosen]
      rfl
  | some record =>
      obtain ⟨other, otherChosen, sameKind⟩ := resembles.chosen v record reached isChosen
      simp only [beyond, isChosen, otherChosen, sameKind, Kind.leaves_bind_var]

theorem reach_eq (resembles : store.Resembles later choose type image rename) :
    later.reach choose image = (store.reach choose type).map rename := by
  have reaches : ∀ v, Trail.Reachable (store.beyond choose) (store.zonk type).leaves v →
      store.Reaches choose type v := by
    intro v reachable
    rw [← mem_entered_reach, Store.reach_eq]
    exact (Trail.mem_entered_iff mem_entries_of_beyond).mpr reachable
  rw [Store.reach_eq, Store.reach_eq, resembles.zonk_eq, Ty.leaves_map]
  exact Trail.walk_map mem_entries_of_beyond mem_entries_of_beyond
    (fun v w vReached wReached => resembles.injective v w (reaches v vReached) (reaches w wReached))
    fun v reached => resembles.beyond_eq (reaches v reached)

/-- What is reached from the second type are the renamed variables that are reached from the first. -/
theorem reaches_iff (resembles : store.Resembles later choose type image rename) {w : MetaVar} :
    later.Reaches choose image w ↔ ∃ v, store.Reaches choose type v ∧ rename v = w := by
  rw [← mem_entered_reach, resembles.reach_eq, Trail.map, List.mem_map]
  simp only [mem_entered_reach]

end Resembles

end TypedMatch.Store
