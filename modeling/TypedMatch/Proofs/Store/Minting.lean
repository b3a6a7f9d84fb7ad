import TypedMatch.Proofs.Scheme.Instantiation

/-!
# Minting and nothing else

Whatever a check does to the store, it does by minting free variables one after the other.  Where every
cell belongs to a variable that has been minted, this writes no cell a second time: each new variable makes
the table of cells one entry longer, and the types that variables are linked to stay the same.
-/

set_option autoImplicit false

namespace TypedMatch

theorem Table.entries_set_of_get?_eq_none {Key Value : Type} [DecidableEq Key]
    {table : Table Key Value} {key : Key} (unwritten : table.get? key = none) (value : Value) :
    (table.set key value).entries = (key, value) :: table.entries := by
  refine congrArg ((key, value) :: ·) (List.filter_eq_self.mpr ?_)
  intro entry among
  rw [get?, List.lookup_eq_none_iff] at unwritten
  have different := unwritten entry among
  rw [bne_iff_ne]
  exact fun same => by simp [same] at different

namespace Store

/-- Whether a store is another one that has minted so many free variables in a row and done nothing
else. -/
inductive Mints (store : Store) : Nat → Store → Prop where
  | none : Mints store 0 store
  | one {count : Nat} {grown : Store} (kind : Kind MetaVar) (quantification : Quantification)
      (level : Level) : Mints store count grown →
      Mints store (count + 1) (grown.newVar kind quantification level).2

def Bounded (store : Store) : Prop :=
  ∀ v : MetaVar, (store.cells.get? v).isSome → v.number < store.nextVar

variable {store grown last : Store} {count more : Nat} {kind : Kind MetaVar}
  {quantification : Quantification} {level : Level}

/-! ## One new variable -/

theorem newVar_extends (store : Store) (kind : Kind MetaVar) (quantification : Quantification)
    (level : Level) : (store.newVar kind quantification level).2.Extends store :=
  (foldl_newVar_extends (fun _ : Unit => kind) quantification level [()] store).1

theorem Bounded.newVar (bounded : store.Bounded) :
    (store.newVar kind quantification level).2.Bounded := by
  intro v known
  rw [get?_cells_newVar] at known
  split at known
  · rename_i isNew
    rw [isNew]
    exact Nat.lt_succ_self _
  · exact Nat.lt_succ_of_lt (bounded v known)

theorem Bounded.entries_newVar (bounded : store.Bounded) :
    (store.newVar kind quantification level).2.cells.entries
      = (⟨store.nextVar⟩, .free ⟨⟨store.nextVar⟩, kind, quantification, level⟩)
        :: store.cells.entries := by
  refine Table.entries_set_of_get?_eq_none ?_ _
  cases found : store.cells.get? ⟨store.nextVar⟩ with
  | none => rfl
  | some cell => exact absurd (bounded ⟨store.nextVar⟩ (by simp [found])) (Nat.lt_irrefl _)

theorem Bounded.size_newVar (bounded : store.Bounded) :
    (store.newVar kind quantification level).2.cells.size = store.cells.size + 1 := by
  rw [Table.size, bounded.entries_newVar, List.length_cons, Table.size]

theorem Bounded.linkedSize_newVar (bounded : store.Bounded) :
    (store.newVar kind quantification level).2.linkedSize = store.linkedSize := by
  rw [linkedSize, bounded.entries_newVar, List.foldr_cons, linkSize, Nat.zero_add, linkedSize]

/-! ## Many new variables -/

namespace Mints

theorem trans (first : store.Mints count grown) (second : grown.Mints more last) :
    store.Mints (count + more) last := by
  induction second with
  | none => exact first
  | one kind quantification level _ inductionHypothesis =>
      exact .one kind quantification level inductionHypothesis

theorem extension (mints : store.Mints count grown) : grown.Extends store := by
  induction mints with
  | none => exact .refl store
  | one kind quantification level _ inductionHypothesis =>
      exact (newVar_extends _ kind quantification level).trans inductionHypothesis

theorem bounded (mints : store.Mints count grown) (bounded : store.Bounded) : grown.Bounded := by
  induction mints with
  | none => exact bounded
  | one _ _ _ _ inductionHypothesis => exact inductionHypothesis.newVar

theorem size_eq (mints : store.Mints count grown) (bounded : store.Bounded) :
    grown.cells.size = store.cells.size + count := by
  induction mints with
  | none => rfl
  | one _ _ _ before inductionHypothesis =>
      rw [(before.bounded bounded).size_newVar, inductionHypothesis, Nat.add_assoc]

theorem linkedSize_eq (mints : store.Mints count grown) (bounded : store.Bounded) :
    grown.linkedSize = store.linkedSize := by
  induction mints with
  | none => rfl
  | one _ _ _ before inductionHypothesis =>
      rw [(before.bounded bounded).linkedSize_newVar, inductionHypothesis]

end Mints

theorem foldl_newVar_mints {Origin : Type} (kinds : Origin → Kind MetaVar)
    (quantification : Quantification) (level : Level) (origins : List Origin) (store : Store) :
    store.Mints origins.length
      (origins.foldl (fun grown origin => (grown.newVar (kinds origin) quantification level).2)
        store) := by
  induction origins generalizing store with
  | nil => exact .none
  | cons origin rest inductionHypothesis =>
      have first : store.Mints 1 (store.newVar (kinds origin) quantification level).2 :=
        .one (kinds origin) quantification level .none
      rw [List.length_cons, Nat.add_comm]
      exact first.trans (inductionHypothesis _)

theorem instantiateWith_mints (store : Store) (level : Level) (quantification : Quantification)
    (given : List (BoundVar × Ty MetaVar)) (scheme : Scheme) :
    store.Mints (pending scheme given).length
      (store.instantiateWith level quantification given scheme).2 :=
  foldl_newVar_mints _ quantification level (pending scheme given) store

theorem instantiateAt_mints {params : List BoundVar} {args : List (Ty MetaVar)} {scheme : Scheme}
    {type : Ty MetaVar}
    (instantiates : store.instantiateAt level quantification params args scheme = .ok (type, grown)) :
    ∃ count, store.Mints count grown := by
  rw [instantiateAt] at instantiates
  split at instantiates
  · cases instantiates
    exact ⟨_, store.instantiateWith_mints level quantification _ _⟩
  · cases instantiates

theorem apply_mints {template : Template} {args : List (Ty MetaVar)} {type : Ty MetaVar}
    (applies : store.apply level quantification template args = .ok (type, grown)) :
    ∃ count, store.Mints count grown :=
  instantiateAt_mints applies

end Store

end TypedMatch
