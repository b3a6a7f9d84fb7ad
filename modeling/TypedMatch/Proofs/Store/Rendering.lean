import TypedMatch.Proofs.Scheme.Owned
import TypedMatch.Proofs.Ty.Naming

/-!
# Texts that say all about a type

Where no links lead back, every owned type has a text.  Two legible types have the same text just if they are
the same once their links have been followed and they are read by name, up to a renaming of their variables.
-/

set_option autoImplicit false

namespace TypedMatch.Store

variable {store : Store}

theorem textOf_of_free {type : Ty ShownVar}
    (free : ∀ shown ∈ type.shown, ∀ v, shown.var = .free v →
      ∃ record, store.cells.get? v = some (.free record)) :
    store.textOf type = .ok type.named := by
  have settled : store.settle (type.shown.filterMap fun shown => shown.var.free?) = .ok () := by
    apply settle_eq_ok_iff.mpr
    intro v among
    obtain ⟨shown, isShown, isFree⟩ := List.mem_filterMap.mp among
    apply free shown isShown v
    cases var : shown.var with
    | bound param => rw [var] at isFree; cases isFree
    | free w => rw [var] at isFree; cases isFree; rfl
  rw [textOf, settled]
  rfl

def unmarked (type : Ty MetaVar) : Ty ShownVar := type.map fun v => ⟨.free v, false⟩

theorem mem_shown_unmarked {type : Ty MetaVar} {shown : ShownVar} :
    shown ∈ (unmarked type).shown ↔ ∃ v ∈ type.shown, shown = ⟨.free v, false⟩ := by
  rw [unmarked, Ty.shown_map, List.mem_map]
  simp only [eq_comm]

theorem free_of_mem_shown_zonk (acyclic : store.Acyclic) {type : Ty MetaVar} (owned : store.Owns type.leaves)
    {v : MetaVar} (shows : v ∈ (store.zonk type).shown) :
    ∃ record, store.cells.get? v = some (.free record) := by
  apply free_of_mem_flatMap_target acyclic owned
  rw [← leaves_zonk]
  exact (Ty.shown_sublist _).subset shows

theorem typeText_eq_named (acyclic : store.Acyclic) {type : Ty MetaVar} (owned : store.Owns type.leaves) :
    store.typeText type = .ok (unmarked (store.zonk type)).named := by
  rw [typeText_eq_textOf_zonk]
  apply textOf_of_free
  intro shown isShown v isFree
  obtain ⟨w, shows, rfl⟩ := mem_shown_unmarked.mp isShown
  cases isFree
  exact free_of_mem_shown_zonk acyclic owned shows

theorem signed_unmarked (type : Ty MetaVar) :
    (unmarked type).signed = type.byName.numbered.map fun position => (false, position) := by
  have vars : (unmarked type).shown.map ShownVar.var = type.byName.leaves.map .free := by
    rw [unmarked, Ty.shown_map, List.map_map, Ty.leaves_byName]
    rfl
  rw [Ty.signed, vars, unmarked, Ty.byName_map, Ty.map_map, Ty.numbered, Ty.map_map]
  apply Ty.map_congr
  intro v occurs
  exact congrArg (Prod.mk false)
    (firstPosition_map type.byName.leaves (fun _ _ _ _ same => SchemeVar.free.inj same) occurs)

/-- The texts of two legible types are the same just if the types are, with their links followed and read by
name, up to a renaming of their variables. -/
theorem typeText_eq_iff_renamed (acyclic : store.Acyclic) {type other : Ty MetaVar}
    (owned : store.Owns type.leaves) (otherOwned : store.Owns other.leaves)
    (legible : (store.zonk type).legible = true) (otherLegible : (store.zonk other).legible = true) :
    ∃ text otherText, store.typeText type = .ok text ∧ store.typeText other = .ok otherText ∧
      (text = otherText ↔ (store.zonk type).byName.Renamed (store.zonk other).byName) := by
  refine ⟨_, _, typeText_eq_named acyclic owned, typeText_eq_named acyclic otherOwned, ?_⟩
  have legibleUnmarked : (unmarked (store.zonk type)).legible = true := by
    rwa [unmarked, Ty.legible_map]
  have otherUnmarked : (unmarked (store.zonk other)).legible = true := by
    rwa [unmarked, Ty.legible_map]
  -- No mark is set on either side, so only the positions are left to compare.
  have injective : Function.Injective fun position : Nat => (false, position) :=
    fun _ _ same => (Prod.mk.inj same).2
  rw [Ty.named_eq_iff legibleUnmarked otherUnmarked, signed_unmarked, signed_unmarked,
    (Ty.map_injective injective).eq_iff, Ty.numbered_eq_iff]

/-- A declared type and a synonym of the same name are written alike if both take a list of one variable and
then another variable.  With one variable in both places the declared type is written otherwise. -/
theorem pairs_written :
    let declared (second : Ty MetaVar) : Ty MetaVar := .data ⟨0, "pair"⟩ [.var ⟨3⟩, second]
    let abbreviated : Ty MetaVar := .synonym ⟨7, "pair"⟩ [.list (.var ⟨2⟩), .var ⟨0⟩] (.var ⟨0⟩)
    ∃ text otherText, tangledStore.typeText (declared (.var ⟨2⟩)) = .ok text ∧
      tangledStore.typeText abbreviated = .ok text ∧
      tangledStore.typeText (declared (.var ⟨1⟩)) = .ok otherText ∧ text ≠ otherText := by
  intro declared abbreviated
  have closed : tangledStore.Closed := by decide
  have declaredOwned : tangledStore.Owns (declared (.var ⟨2⟩)).leaves := closed.owns (by decide)
  have repeatedOwned : tangledStore.Owns (declared (.var ⟨1⟩)).leaves := closed.owns (by decide)
  have abbreviatedOwned : tangledStore.Owns abbreviated.leaves := closed.owns (by decide)
  obtain ⟨text, sameText, written, sameWritten, same_iff⟩ :=
    typeText_eq_iff_renamed tangledStore_acyclic declaredOwned abbreviatedOwned (by decide) (by decide)
  obtain ⟨text', otherText, written', otherWritten, other_iff⟩ :=
    typeText_eq_iff_renamed tangledStore_acyclic declaredOwned repeatedOwned (by decide) (by decide)
  have vars : (tangledStore.zonk (declared (.var ⟨2⟩))).byName.leaves = [⟨1⟩, ⟨2⟩] := rfl
  have isText : text = sameText := by
    refine same_iff.mpr ⟨fun v => if v = ⟨1⟩ then ⟨2⟩ else ⟨0⟩, ⟨?_, ?_, ?_⟩, rfl⟩
    · intro v occurs
      change _ ∈ ([⟨2⟩, ⟨0⟩] : List MetaVar)
      by_cases isFirst : v = ⟨1⟩
      · simp [isFirst]
      · simp [isFirst]
    · intro v occurs w wOccurs same
      change v ∈ ([⟨1⟩, ⟨2⟩] : List MetaVar) at occurs
      change w ∈ ([⟨1⟩, ⟨2⟩] : List MetaVar) at wOccurs
      rcases List.mem_pair.mp occurs with rfl | rfl <;> rcases List.mem_pair.mp wOccurs with rfl | rfl
      · rfl
      · cases same
      · cases same
      · rfl
    · intro w occurs
      change w ∈ ([⟨2⟩, ⟨0⟩] : List MetaVar) at occurs
      rcases List.mem_pair.mp occurs with rfl | rfl
      · exact ⟨⟨1⟩, .head _, rfl⟩
      · exact ⟨⟨2⟩, .tail _ (.head _), rfl⟩
  have isOther : text ≠ otherText := by
    rw [written] at written'
    cases written'
    intro same
    obtain ⟨rename, bijective, renamed⟩ := other_iff.mp same
    have renamedVars : [rename ⟨1⟩, rename ⟨2⟩] = ([⟨1⟩, ⟨1⟩] : List MetaVar) := by
      have leaves := congrArg Ty.leaves renamed
      rwa [Ty.leaves_map, vars] at leaves
    simp only [List.cons.injEq, and_true] at renamedVars
    cases bijective.injOn (show ⟨1⟩ ∈ _ from .head _) (show ⟨2⟩ ∈ _ from .tail _ (.head _))
      (renamedVars.1.trans renamedVars.2.symm)
  refine ⟨text, otherText, written, ?_, otherWritten, isOther⟩
  rw [isText]
  exact sameWritten

end TypedMatch.Store
