import Mathlib.Data.Set.Finite.Lattice
import Mathlib.Logic.Relation
import TypedMatch.Coverage.Cover

/-!
# The calls of a check

A check of rows against slots leaves the work to further checks: one for the other slots where the
first slot is skipped, and one for each head where it is taken apart, every one of them from the store
that the one before has left.  Each of them asks for less than the check that makes it, or for as much
at fewer slots.  So no check goes on for ever, however wide rows become and however deep types are, and a
round of the recursion that is unfolded often enough never asks what comes after it.
-/

set_option autoImplicit false

namespace TypedMatch

structure Query where
  store : Store
  rows : List Row
  slots : List (Ty MetaVar)

namespace Query

def run (env : Environment) (level : Level) (query : Query) : Except Fault (Findings × Store) :=
  cover env level query.store query.rows query.slots

def behind (env : Environment) (level : Level) (rows : List Row) (rest : List (Ty MetaVar)) :
    Store → List (Head MetaVar) → List Query
  | _, [] => []
  | store, head :: more =>
      let next : Query := ⟨store, keptRows head rows, head.slots ++ rest⟩
      match next.run env level with
      | .ok (_, grown) => next :: behind env level rows rest grown more
      | .error _ => [next]

def made (env : Environment) (level : Level) (query : Query) : List Query :=
  match query.slots with
  | [] => []
  | slot :: rest =>
      if query.rows.isEmpty then []
      else if query.rows.all Row.skips then [⟨query.store, query.rows.map Row.tail, rest⟩]
      else
        match env.heads level query.store slot (column query.rows) with
        | .ok (heads, grown) => behind env level query.rows rest grown heads
        | .error _ => []

def Leads (env : Environment) (level : Level) : Query → Query → Prop :=
  Relation.ReflTransGen fun query next => next ∈ query.made env level

variable {env : Environment} {level : Level} {query next : Query} {rows : List Row}
  {rest : List (Ty MetaVar)}

theorem mem_behind {store : Store} {heads : List (Head MetaVar)}
    (isMade : next ∈ behind env level rows rest store heads) :
    ∃ head ∈ heads, next.rows = keptRows head rows ∧ next.slots = head.slots ++ rest := by
  induction heads generalizing store with
  | nil => cases isMade
  | cons head more inductionHypothesis =>
      rw [behind] at isMade
      split at isMade
      · rcases List.mem_cons.mp isMade with rfl | later
        · exact ⟨head, .head _, rfl, rfl⟩
        · obtain ⟨other, among, shape⟩ := inductionHypothesis later
          exact ⟨other, .tail _ among, shape⟩
      · cases List.mem_singleton.mp isMade
        exact ⟨head, .head _, rfl, rfl⟩

theorem mem_made (isMade : next ∈ query.made env level) :
    ∃ slot rest, query.slots = slot :: rest ∧
      (query.rows.all Row.skips = true ∧ next.rows = query.rows.map Row.tail ∧ next.slots = rest ∨
        query.rows.all Row.skips = false ∧ ∃ head : Head MetaVar,
          next.rows = keptRows head query.rows ∧ next.slots = head.slots ++ rest) := by
  obtain ⟨store, rows, slots⟩ := query
  rw [made] at isMade
  cases slots with
  | nil => cases isMade
  | cons slot rest =>
      refine ⟨slot, rest, rfl, ?_⟩
      dsimp only at isMade ⊢
      split at isMade
      · cases isMade
      · split at isMade
        · rename_i skips
          cases List.mem_singleton.mp isMade
          exact .inl ⟨skips, rfl, rfl⟩
        · rename_i asks
          split at isMade
          · obtain ⟨head, _, shape⟩ := mem_behind isMade
            exact .inr ⟨Bool.eq_false_iff.mpr asks, head, shape⟩
          · cases isMade

/-! ## No endless chain of calls -/

def size (query : Query) : Nat × Nat := (openNodes query.rows, query.slots.length)

theorem size_lt_of_mem_made (isMade : next ∈ query.made env level) :
    Prod.Lex (· < ·) (· < ·) next.size query.size := by
  obtain ⟨slot, rest, slotsEq, ⟨skips, rowsEq, restEq⟩ | ⟨asks, head, rowsEq, restEq⟩⟩ :=
    mem_made isMade
  · rw [size, size, rowsEq, restEq, slotsEq, openNodes_map_tail skips]
    exact .right _ (Nat.lt_succ_self _)
  · rw [size, size, rowsEq]
    exact .left _ _ (openNodes_keptRows_lt head asks)

theorem made_wellFounded (env : Environment) (level : Level) :
    WellFounded fun next query : Query => next ∈ query.made env level :=
  Subrelation.wf size_lt_of_mem_made
    (InvImage.wf size (WellFounded.prod_lex Nat.lt_wfRel.wf Nat.lt_wfRel.wf))

theorem finite_leads (env : Environment) (level : Level) (query : Query) :
    {later | query.Leads env level later}.Finite := by
  induction query using (made_wellFounded env level).induction with
  | _ query inductionHypothesis =>
      have furtherFinite : (⋃ next ∈ {next | next ∈ query.made env level},
          {later | next.Leads env level later}).Finite :=
        (query.made env level).finite_toSet.biUnion inductionHypothesis
      apply (furtherFinite.insert query).subset
      intro later leads
      rcases Relation.ReflTransGen.cases_head leads with rfl | ⟨next, isMade, further⟩
      · exact Set.mem_insert _ _
      · exact Set.mem_insert_of_mem _ (Set.mem_biUnion isMade further)

/-! ## Rounds of the recursion -/

def headsFrom (answer : Query → Except Fault (Findings × Store)) (rows : List Row)
    (rest : List (Ty MetaVar)) : Store → List (Head MetaVar) → Except Fault (Findings × Store)
  | store, [] => .ok (.none, store)
  | store, head :: more => do
      let (inner, grown) ← answer ⟨store, keptRows head rows, head.slots ++ rest⟩
      let (others, last) ← headsFrom answer rows rest grown more
      return ((inner.mapHoles (Hole.fold head)).append others, last)

def runFrom (env : Environment) (level : Level) (answer : Query → Except Fault (Findings × Store))
    (query : Query) : Except Fault (Findings × Store) :=
  match query.slots with
  | [] => .ok (.ofRows query.rows, query.store)
  | slot :: rest =>
      if query.rows.isEmpty then .ok (.unmatched (slot :: rest), query.store)
      else if query.rows.all Row.skips then do
        let (findings, grown) ← answer ⟨query.store, query.rows.map Row.tail, rest⟩
        return (findings.mapHoles Hole.skip, grown)
      else do
        let (heads, grown) ← env.heads level query.store slot (column query.rows)
        headsFrom answer query.rows rest grown heads

/-- Several rounds of a check, with the answers to calls beyond the last round taken from elsewhere. -/
def unfolded (env : Environment) (level : Level)
    (beyond : Query → Except Fault (Findings × Store)) :
    Nat → Query → Except Fault (Findings × Store)
  | 0 => beyond
  | rounds + 1 => runFrom env level (unfolded env level beyond rounds)

variable {answer : Query → Except Fault (Findings × Store)}

theorem headsFrom_eq (asks : rows.all Row.skips = false) {heads : List (Head MetaVar)} {store : Store}
    (agree : ∀ next ∈ behind env level rows rest store heads, answer next = next.run env level) :
    headsFrom answer rows rest store heads = coverHeads env level store rows rest heads asks := by
  induction heads generalizing store with
  | nil => rw [headsFrom, coverHeads]
  | cons head more inductionHypothesis =>
      rw [behind] at agree
      rw [headsFrom, coverHeads]
      cases ran : cover env level store (keptRows head rows) (head.slots ++ rest) with
      | error fault =>
          simp only [run, ran] at agree
          simp only [agree _ (.head _), ran]
          rfl
      | ok result =>
          obtain ⟨inner, grown⟩ := result
          simp only [run, ran] at agree
          obtain ⟨first, later⟩ := List.forall_mem_cons.mp agree
          rw [first, ran]
          simp only [bind, Except.bind, inductionHypothesis later]

theorem runFrom_eq (agree : ∀ next ∈ query.made env level, answer next = next.run env level) :
    runFrom env level answer query = query.run env level := by
  obtain ⟨store, rows, slots⟩ := query
  rw [run, runFrom]
  rw [made] at agree
  cases slots with
  | nil => rw [cover]
  | cons slot rest =>
      rw [cover]
      dsimp only at agree ⊢
      split
      · rfl
      · rename_i nonempty
        rw [if_neg nonempty] at agree
        split
        · rename_i skips
          rw [if_pos skips] at agree
          rw [agree _ (.head _)]
          rfl
        · rename_i asks
          rw [if_neg asks] at agree
          cases listed : env.heads level store slot (column rows) with
          | error fault => rfl
          | ok result =>
              obtain ⟨heads, grown⟩ := result
              rw [listed] at agree
              exact headsFrom_eq (Bool.eq_false_iff.mpr asks) agree

theorem unfolded_succ (beyond : Query → Except Fault (Findings × Store)) (rounds : Nat)
    (query : Query) : unfolded env level beyond (rounds + 1) query
      = unfolded env level (runFrom env level beyond) rounds query := by
  have shifted : unfolded env level beyond (rounds + 1)
      = unfolded env level (runFrom env level beyond) rounds := by
    induction rounds with
    | zero => rfl
    | succ rounds inductionHypothesis =>
        rw [unfolded, inductionHypothesis]
        rfl
  rw [shifted]

/-- Whether a check is decided within so many rounds, whatever is answered beyond them. -/
def EndsWithin (env : Environment) (level : Level) (rounds : Nat) (query : Query) : Prop :=
  ∀ beyond, unfolded env level beyond rounds query = query.run env level

theorem EndsWithin.mono {rounds more : Nat} (ends : query.EndsWithin env level rounds)
    (enough : rounds ≤ more) : query.EndsWithin env level more := by
  induction enough with
  | refl => exact ends
  | step _ inductionHypothesis =>
      intro beyond
      rw [unfolded_succ]
      exact inductionHypothesis _

theorem exists_settled {settled : Nat → Query → Prop} {queries : List Query}
    (each : ∀ next ∈ queries, ∃ rounds, ∀ more, rounds ≤ more → settled more next) :
    ∃ rounds, ∀ more, rounds ≤ more → ∀ next ∈ queries, settled more next := by
  induction queries with
  | nil => exact ⟨0, fun _ _ => List.forall_mem_nil _⟩
  | cons first others inductionHypothesis =>
      obtain ⟨firstSettled, othersSettled⟩ := List.forall_mem_cons.mp each
      obtain ⟨rounds, settles⟩ := firstSettled
      obtain ⟨further, settle⟩ := inductionHypothesis othersSettled
      exact ⟨max rounds further, fun more enough => List.forall_mem_cons.mpr
        ⟨settles more (le_of_max_le_left enough), settle more (le_of_max_le_right enough)⟩⟩

theorem exists_endsWithin (env : Environment) (level : Level) (query : Query) :
    ∃ rounds, query.EndsWithin env level rounds := by
  induction query using (made_wellFounded env level).induction with
  | _ query inductionHypothesis =>
      have eachEnds : ∀ next ∈ query.made env level, ∃ rounds, ∀ more, rounds ≤ more →
          next.EndsWithin env level more := by
        intro next isMade
        obtain ⟨rounds, ends⟩ := inductionHypothesis next isMade
        exact ⟨rounds, fun more enough => ends.mono enough⟩
      obtain ⟨rounds, allEnd⟩ := exists_settled eachEnds
      exact ⟨rounds + 1, fun beyond =>
        runFrom_eq fun next isMade => allEnd rounds (Nat.le_refl _) next isMade beyond⟩

/-- No chain of calls is endless, a check makes finitely many of them, and it is decided within some
number of rounds. -/
theorem check_ends (env : Environment) (level : Level) :
    (WellFounded fun next query : Query => next ∈ query.made env level) ∧
      ∀ query : Query, {later | query.Leads env level later}.Finite ∧
        ∃ rounds, query.EndsWithin env level rounds :=
  ⟨made_wellFounded env level, fun query =>
    ⟨finite_leads env level query, exists_endsWithin env level query⟩⟩

end Query

end TypedMatch
