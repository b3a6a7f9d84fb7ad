import TypedMatch.Proofs.Store.Extension

/-!
# Closed stores

A store is closed if it has a cell for every variable that its cells mention, and has minted all of them.
A closed store owns all of its variables.  That a store is closed, and that its links go down in rank, can
be read off the list of its cells.
-/

set_option autoImplicit false

namespace TypedMatch

def Cell.leaves : Cell → List MetaVar
  | .free record => record.kind.leaves
  | .linked target => target.leaves

def Cell.links : Cell → List MetaVar
  | .free _ => []
  | .linked target => target.leaves

namespace Store

def Has (store : Store) (var : MetaVar) : Prop :=
  var.number < store.nextVar ∧ (store.cells.get? var).isSome

instance (store : Store) (var : MetaVar) : Decidable (store.Has var) :=
  inferInstanceAs (Decidable (_ ∧ _))

def Closed (store : Store) : Prop :=
  ∀ entry ∈ store.cells.entries, ∀ var ∈ entry.2.leaves, store.Has var

instance (store : Store) : Decidable store.Closed :=
  inferInstanceAs (Decidable (∀ entry ∈ store.cells.entries, ∀ var ∈ entry.2.leaves, store.Has var))

variable {store : Store}

theorem mem_entries_of_get? {v : MetaVar} {cell : Cell} (stored : store.cells.get? v = some cell) :
    (v, cell) ∈ store.cells.entries := by
  obtain ⟨before, after, split, _⟩ := List.lookup_eq_some_iff.mp stored
  rw [split]
  exact List.mem_append_right _ (.head _)

theorem Closed.owns (closed : store.Closed) {vars : List MetaVar}
    (each : ∀ var ∈ vars, store.Has var) : store.Owns vars := by
  intro v met
  cases met with
  | here occurs => exact each v occurs
  | behind _ stored occurs => exact closed _ (mem_entries_of_get? stored) v occurs

theorem Closed.owns_kind (closed : store.Closed) {v : MetaVar} {record : FreeVar}
    (stored : store.cells.get? v = some (.free record)) : store.Owns record.kind.leaves :=
  closed.owns (closed _ (mem_entries_of_get? stored))

theorem acyclic_of_entries (rank : MetaVar → Nat)
    (lower : ∀ entry ∈ store.cells.entries, ∀ w ∈ entry.2.links, rank w < rank entry.1) :
    store.Acyclic :=
  ⟨rank, fun stored => lower _ (mem_entries_of_get? stored)⟩

end Store

end TypedMatch
