import TypedMatch.Proofs.Scheme.Reaching
import TypedMatch.Store.Text

/-!
# Coherent stores

A store is coherent if it has a cell for just the variables it has minted, writes a free variable under its
own identity, and has only minted variables in its cells.  Every operation keeps a store coherent as long as
what it is given mentions minted variables only.  Links may lead back to themselves: then following them ends
at a fault, but never at a variable that the store does not know.
-/

set_option autoImplicit false

namespace TypedMatch

/-- Whether a fault is about a variable without a cell. -/
def Fault.isStray : Fault → Bool
  | unknownVar _ => true
  | _ => false

namespace Store

/-- Whether a store has minted all variables of a kind. -/
def Minted (store : Store) (mentions : MetaVar → Prop) : Prop :=
  ∀ v, mentions v → v.number < store.nextVar

structure Coherent (store : Store) : Prop where
  known_iff : ∀ v : MetaVar, (store.cells.get? v).isSome ↔ v.number < store.nextVar
  named : ∀ (v : MetaVar) (record : FreeVar),
    store.cells.get? v = some (.free record) → record.var = v
  within : ∀ (v : MetaVar) (cell : Cell),
    store.cells.get? v = some cell → store.Minted (· ∈ cell.leaves)

/-- Whether a computation on a store, if it succeeds, gives a value that mentions minted variables only, and
does not fail because of a variable without a cell. -/
def Reads {Value : Type} (store : Store) (mentions : Value → MetaVar → Prop) :
    Except Fault Value → Prop
  | .ok value => store.Minted (mentions value)
  | .error fault => fault.isStray = false

/-- Whether a store is coherent, knows the variables of another one, and has minted these. -/
structure Holding (store : Store) (mentions : MetaVar → Prop) (grown : Store) : Prop where
  coherent : grown.Coherent
  nextVar_le : store.nextVar ≤ grown.nextVar
  minted : grown.Minted mentions

/-- Whether a computation that takes a store on to another one, if it succeeds, leaves a coherent store and a
value that mentions minted variables only, and does not fail because of a variable without a cell. -/
def Advances {Value : Type} (store : Store) (mentions : Value → MetaVar → Prop) :
    Except Fault (Value × Store) → Prop
  | .ok (value, grown) => store.Holding (mentions value) grown
  | .error fault => fault.isStray = false

variable {store grown later : Store} {mentions : MetaVar → Prop}

/-! ## Putting computations together -/

theorem Minted.mono (minted : store.Minted mentions) (nextVar_le : store.nextVar ≤ grown.nextVar) :
    grown.Minted mentions :=
  fun v occurs => Nat.lt_of_lt_of_le (minted v occurs) nextVar_le

theorem minted_none (store : Store) : store.Minted fun _ => False :=
  fun _ occurs => occurs.elim

section Computations

variable {Value Result : Type} {mentions : Value → MetaVar → Prop}
  {mentionsNext : Result → MetaVar → Prop}

theorem Reads.bind {step : Except Fault Value} {next : Value → Except Fault Result}
    (first : store.Reads mentions step)
    (second : ∀ value, store.Minted (mentions value) → store.Reads mentionsNext (next value)) :
    store.Reads mentionsNext (step >>= next) := by
  cases step with
  | error fault => exact first
  | ok value => exact second value first

theorem Reads.before {step : Except Fault Value} {next : Value → Except Fault (Result × Store)}
    (first : store.Reads mentions step)
    (second : ∀ value, store.Minted (mentions value) → store.Advances mentionsNext (next value)) :
    store.Advances mentionsNext (step >>= next) := by
  cases step with
  | error fault => exact first
  | ok value => exact second value first

theorem Advances.bind {step : Except Fault (Value × Store)}
    {next : Value × Store → Except Fault (Result × Store)} (first : store.Advances mentions step)
    (second : ∀ value grown, store.Holding (mentions value) grown →
      grown.Advances mentionsNext (next (value, grown))) :
    store.Advances mentionsNext (step >>= next) := by
  cases step with
  | error fault => exact first
  | ok made =>
      obtain ⟨value, grown⟩ := made
      have held := second value grown first
      change store.Advances mentionsNext (next (value, grown))
      cases result : next (value, grown) with
      | error fault =>
          rw [result] at held
          exact held
      | ok last =>
          rw [result] at held
          exact ⟨held.coherent, Nat.le_trans first.nextVar_le held.nextVar_le, held.minted⟩

theorem Coherent.advances (coherent : store.Coherent) {value : Value}
    (minted : store.Minted (mentions value)) : store.Advances mentions (.ok (value, store)) :=
  ⟨coherent, Nat.le_refl _, minted⟩

end Computations

/-! ## Basic operations -/

theorem nextVar_constrain (store : Store) (v : MetaVar) (kind : Kind MetaVar) :
    (store.constrain v kind).nextVar = store.nextVar := by
  rw [constrain]
  split <;> rfl

theorem empty_coherent : Store.empty.Coherent where
  known_iff := fun _ => iff_of_false Bool.false_ne_true (Nat.not_lt_zero _)
  named := by
    intro v record stored
    cases stored
  within := by
    intro v cell stored
    cases stored

namespace Coherent

theorem of_cells (coherent : store.Coherent) (sameCells : later.cells = store.cells)
    (sameNext : later.nextVar = store.nextVar) : later.Coherent := by
  obtain ⟨nextCon, nextVar, nextBound, cells⟩ := later
  cases sameCells
  cases sameNext
  exact ⟨coherent.known_iff, coherent.named, coherent.within⟩

theorem newVar (coherent : store.Coherent) {kind : Kind MetaVar}
    (minted : store.Minted (· ∈ kind.leaves)) (quantification : Quantification) (level : Level) :
    (store.newVar kind quantification level).2.Coherent := by
  have grows : store.nextVar ≤ (store.newVar kind quantification level).2.nextVar := Nat.le_succ _
  constructor
  · intro v
    rw [get?_cells_newVar]
    change _ ↔ v.number < store.nextVar + 1
    split
    · rename_i isNew
      rw [isNew]
      exact iff_of_true rfl (Nat.lt_succ_self _)
    · rename_i notNew
      rw [coherent.known_iff]
      have different : v.number ≠ store.nextVar := fun same => notNew (congrArg MetaVar.mk same)
      omega
  · intro v record stored
    rw [get?_cells_newVar] at stored
    split at stored
    · rename_i isNew
      cases stored
      exact isNew.symm
    · exact coherent.named v record stored
  · intro v cell stored
    rw [get?_cells_newVar] at stored
    split at stored
    · cases stored
      exact minted.mono grows
    · exact (coherent.within v cell stored).mono grows

theorem set (coherent : store.Coherent) {written : MetaVar} {cell : Cell}
    (isMinted : written.number < store.nextVar) (minted : store.Minted (· ∈ cell.leaves))
    (ownRecord : ∀ record, cell = .free record → record.var = written) :
    { store with cells := store.cells.set written cell }.Coherent := by
  constructor
  · intro v
    rw [Table.get?_set]
    split
    · rename_i isWritten
      rw [isWritten]
      exact iff_of_true rfl isMinted
    · exact coherent.known_iff v
  · intro v record stored
    rw [Table.get?_set] at stored
    split at stored
    · rename_i isWritten
      rw [isWritten]
      exact ownRecord record (Option.some.inj stored)
    · exact coherent.named v record stored
  · intro v content stored
    rw [Table.get?_set] at stored
    split at stored
    · cases stored
      exact minted
    · exact coherent.within v content stored

theorem link (coherent : store.Coherent) {v : MetaVar} (isMinted : v.number < store.nextVar)
    {target : Ty MetaVar} (minted : store.Minted (· ∈ target.leaves)) : (store.link v target).Coherent :=
  coherent.set isMinted minted fun _ isFree => Cell.noConfusion isFree

theorem constrain (coherent : store.Coherent) (v : MetaVar) {kind : Kind MetaVar}
    (minted : store.Minted (· ∈ kind.leaves)) : (store.constrain v kind).Coherent := by
  rw [Store.constrain]
  split
  · rename_i record stored
    refine coherent.set ((coherent.known_iff v).mp (by rw [stored]; rfl)) minted ?_
    rintro _ ⟨⟩
    exact coherent.named v record stored
  · exact coherent

/-! ## Readings -/

theorem has (coherent : store.Coherent) {v : MetaVar} (isMinted : v.number < store.nextVar) :
    store.Has v :=
  ⟨isMinted, (coherent.known_iff v).mpr isMinted⟩

theorem holds (coherent : store.Coherent) (choose : FreeVar → Bool) {vars : List MetaVar}
    (minted : store.Minted (· ∈ vars)) : store.Holds choose vars := by
  refine holds_of_cells ?_ fun v occurs => coherent.has (minted v occurs)
  intro v cell stored w occurs
  exact coherent.has (coherent.within v cell stored w occurs)

theorem cell_reads (coherent : store.Coherent) {v : MetaVar} (isMinted : v.number < store.nextVar) :
    store.Reads (fun cell w => w ∈ cell.leaves) (store.cell v) := by
  obtain ⟨cell, stored⟩ := Option.isSome_iff_exists.mp (coherent.has isMinted).2
  rw [Store.cell, stored]
  exact coherent.within v cell stored

theorem free?_reads (coherent : store.Coherent) {v : MetaVar} (isMinted : v.number < store.nextVar) :
    store.Reads (fun found w => ∃ record, found = some record ∧ (w = record.var ∨ w ∈ record.kind.leaves))
      (store.free? v) := by
  obtain ⟨cell, stored⟩ := Option.isSome_iff_exists.mp (coherent.has isMinted).2
  rw [Store.free?, stored]
  cases cell with
  | free record =>
      rintro w ⟨_, ⟨⟩, rfl | occurs⟩
      · rw [coherent.named v _ stored]
        exact isMinted
      · exact coherent.within v _ stored w occurs
  | linked target =>
      rintro w ⟨_, ⟨⟩, _⟩

theorem followWithin_reads (coherent : store.Coherent) (fuel : Nat) (type : Ty MetaVar)
    (minted : store.Minted (· ∈ type.leaves)) :
    store.Reads (fun root w => w ∈ root.leaves) (store.followWithin fuel type) := by
  fun_induction followWithin store fuel type with
  | case1 fuel v missing =>
      have known := (coherent.has (minted v (List.mem_singleton.mpr rfl))).2
      rw [missing] at known
      cases known
  | case2 fuel v record stored => exact minted
  | case3 v target stored => rfl
  | case4 v target stored fuel inductionHypothesis =>
      exact inductionHypothesis (coherent.within v _ stored)
  | case5 fuel type notVar => exact minted

theorem unfoldWithin_reads (coherent : store.Coherent) (fuel : Nat) (type : Ty MetaVar)
    (minted : store.Minted (· ∈ type.leaves)) :
    store.Reads (fun root w => w ∈ root.leaves) (store.unfoldWithin fuel type) := by
  have mintedBare : ∀ {type : Ty MetaVar}, store.Minted (· ∈ type.leaves) →
      store.Minted (· ∈ type.bare.leaves) :=
    fun minted v occurs => minted v (Ty.mem_leaves_of_mem_leaves_bare _ occurs)
  fun_induction unfoldWithin store fuel type with
  | case1 fuel type v isVar missing =>
      have known := mintedBare minted
      rw [isVar] at known
      have isKnown := (coherent.has (known v (List.mem_singleton.mpr rfl))).2
      rw [missing] at isKnown
      cases isKnown
  | case2 fuel type v isVar record stored =>
      have known := mintedBare minted
      rw [isVar] at known
      exact known
  | case3 type v isVar target stored => rfl
  | case4 type v isVar target stored fuel inductionHypothesis =>
      exact inductionHypothesis (coherent.within v _ stored)
  | case5 fuel type notVar => exact mintedBare minted

theorem settle_reads (coherent : store.Coherent) {vars : List MetaVar}
    (minted : store.Minted (· ∈ vars)) : store.Reads (fun _ _ => False) (store.settle vars) := by
  rw [settle]
  split
  · rename_i fault found
    obtain ⟨v, among, isFault⟩ := List.exists_of_findSome?_eq_some found
    have known := (coherent.has (minted v among)).2
    rw [unsettled?] at isFault
    split at isFault
    · rename_i missing
      rw [missing] at known
      cases known
    · cases isFault
    · cases isFault
      rfl
  · exact store.minted_none

/-! ## Texts -/

theorem minted_zonk (coherent : store.Coherent) {type : Ty MetaVar}
    (minted : store.Minted (· ∈ type.leaves)) : store.Minted (· ∈ (store.zonk type).leaves) := by
  intro v occurs
  rw [leaves_zonk] at occurs
  exact (coherent.holds (fun _ => true) minted v (.of_meets (meets_of_mem_flatMap_target occurs))).1

theorem textOf_reads (coherent : store.Coherent) {type : Ty ShownVar}
    (minted : store.Minted fun v => ∃ shown ∈ type.leaves, shown.var = .free v) :
    store.Reads (fun _ _ => False) (store.textOf type) := by
  refine (coherent.settle_reads ?_).bind fun _ _ => store.minted_none
  intro v among
  obtain ⟨shown, isShown, isFree⟩ := List.mem_filterMap.mp among
  refine minted v ⟨shown, (Ty.shown_sublist type).subset isShown, ?_⟩
  cases isVar : shown.var with
  | free w =>
      rw [isVar] at isFree
      cases isFree
      rfl
  | bound param =>
      rw [isVar] at isFree
      cases isFree

theorem typeText_reads (coherent : store.Coherent) {type : Ty MetaVar}
    (minted : store.Minted (· ∈ type.leaves)) :
    store.Reads (fun _ _ => False) (store.typeText type) := by
  rw [typeText_eq_textOf_zonk]
  apply coherent.textOf_reads
  rintro v ⟨shown, isShown, isFree⟩
  rw [Ty.leaves_map, List.mem_map] at isShown
  obtain ⟨w, occurs, rfl⟩ := isShown
  cases isFree
  exact coherent.minted_zonk minted v occurs

theorem schemeText_reads (coherent : store.Coherent) {scheme : Scheme}
    (minted : store.Minted fun v => .free v ∈ scheme.body.leaves) :
    store.Reads (fun _ _ => False) (store.schemeText scheme) := by
  rw [schemeText_eq_textOf_bind]
  apply coherent.textOf_reads
  rintro v ⟨shown, isShown, isFree⟩
  rw [Ty.leaves_bind, List.mem_flatMap] at isShown
  obtain ⟨x, inBody, standsIn⟩ := isShown
  cases x with
  | bound param =>
      cases List.mem_singleton.mp standsIn
      cases isFree
  | free w =>
      have wMinted : store.Minted (· ∈ (Ty.var w).leaves) := by
        intro u isSingle
        rw [List.mem_singleton.mp isSingle]
        exact minted w inBody
      rw [standIn] at standsIn
      split at standsIn
      · rw [Ty.leaves_map, List.mem_map] at standsIn
        obtain ⟨u, behind, rfl⟩ := standsIn
        cases isFree
        exact coherent.minted_zonk wMinted v behind
      · cases List.mem_singleton.mp standsIn
        cases isFree
        exact minted v inBody

end Coherent

end Store

end TypedMatch
