import TypedMatch.Proofs.Coverage.ComputedHeads
import TypedMatch.Proofs.Coverage.Gaps

/-!
# Guards are read only at the leaves

How rows are taken apart does not depend on which of them have a guard: a check of the same rows with other
guards asks for the same heads, leaves the same store, and comes to leaves with the same rows but for the
guards.  `rowsBehind` says which rows are left where the slots have given witnesses.  It is decided by the
witnesses, so two leaves with the same witnesses have the same rows, even where a type lists a constructor
twice.  Nothing is assumed of the store, the declarations or the rows.
-/

set_option autoImplicit false

namespace TypedMatch

/-! ## Rows with other guards -/

def Row.regard (guards : Nat → Bool) (row : Row) : Row := { row with guarded := guards row.branch }

def Leaf.regard (guards : Nat → Bool) (leaf : Leaf) : Leaf :=
  { leaf with rows := leaf.rows.map (.regard guards) }

section Regard

variable {Var : Type} (guards : Nat → Bool)

theorem all_skips_regard (rows : List Row) :
    (rows.map (Row.regard guards)).all Row.skips = rows.all Row.skips :=
  List.all_map

theorem column_regard (rows : List Row) : column (rows.map (Row.regard guards)) = column rows :=
  List.filterMap_map

theorem map_tail_regard (rows : List Row) :
    (rows.map (Row.regard guards)).map Row.tail = (rows.map Row.tail).map (Row.regard guards) := by
  rw [List.map_map, List.map_map]
  rfl

theorem Row.under_regard (head : Head Var) (row : Row) :
    (row.regard guards).under head = (row.under head).map (Row.regard guards) := by
  obtain ⟨shapes, branch, guarded⟩ := row
  cases shapes with
  | nil => rfl
  | cons first rest =>
      simp only [under, regard, Option.map_map]
      rfl

theorem keptRows_regard (head : Head Var) (rows : List Row) :
    keptRows head (rows.map (Row.regard guards)) = (keptRows head rows).map (Row.regard guards) := by
  have same : Row.under head ∘ Row.regard guards
      = fun row : Row => (row.under head).map (Row.regard guards) :=
    funext fun row => row.under_regard guards head
  rw [keptRows, keptRows, List.filterMap_map, same, List.map_filterMap]

end Regard

/-! ## The rows behind witnesses -/

/-- The head that a witness shows, and the witnesses of its parts, or nothing if it shows none. -/
def Witness.opened : Witness → Option (Head Unit × List Witness)
  | .wildcard => none
  | .unit => some (.unit, [])
  | .bool value => some (.bool value, [])
  | .int value => some (.int value, [])
  | .str value => some (.str value, [])
  | .nil => some (.nil, [])
  | .cons head tail => some (.cons (.var ()), [head, tail])
  | .tuple components => some (.tuple (components.map fun _ => .var ()), components)
  | .constant name => some (.constant name, [])
  | .applied name payload => some (.applied name (.var ()), [payload])

def rowsBehind (rows : List Row) (witnesses : List Witness) : List Row :=
  match witnesses with
  | [] => rows
  | witness :: rest =>
      if rows.all Row.skips then rowsBehind (rows.map Row.tail) rest
      else
        match witness.opened with
        | none => rows
        | some (head, parts) => rowsBehind (keptRows head rows) (parts ++ rest)
termination_by (openNodes rows, witnesses.length)
decreasing_by
  · rename_i skips
    rw [List.map_subtype fun _ _ => rfl, List.unattach_attach, openNodes_map_tail skips]
    exact .right _ (Nat.lt_succ_self _)
  · rename_i asks
    exact .left _ _ (openNodes_keptRows_lt head (Bool.eq_false_iff.mpr asks))

theorem rowsBehind_nil (witnesses : List Witness) : rowsBehind [] witnesses = [] := by
  induction witnesses with
  | nil => rw [rowsBehind]
  | cons witness rest inductionHypothesis =>
      rw [rowsBehind, if_pos List.all_nil]
      exact inductionHypothesis

/-- Whether a head that stands for all other literals leaves out the literals of a column. -/
def Head.Covers {Var : Type} (head : Head Var) (column : List Shape) : Prop :=
  match head with
  | .intBesides listed => ∀ value, .int value ∈ column → value ∈ listed
  | .strBesides listed => ∀ value, .str value ∈ column → value ∈ listed
  | _ => True

theorem Head.exists_opened_rebuild {Var : Type} {head : Head Var} {column : List Shape}
    {parts : List Witness} (covers : head.Covers column) (complete : parts.length = head.arity) :
    ∃ shown, (head.rebuild parts).opened = some (shown, parts) ∧
      ∀ shape ∈ column, shown.demands shape = head.demands shape := by
  cases head with
  | cons element =>
      obtain ⟨first, rest, rfl⟩ := List.length_eq_two.mp complete
      exact ⟨_, rfl, fun shape _ => by cases shape <;> rfl⟩
  | tuple components =>
      refine ⟨_, rfl, ?_⟩
      intro shape _
      cases shape <;> simp_all [demands, arity]
  | applied name payload =>
      obtain ⟨only, rfl⟩ := List.length_eq_one_iff.mp complete
      exact ⟨_, rfl, fun shape _ => by cases shape <;> rfl⟩
  | intBesides listed =>
      cases List.length_eq_zero_iff.mp complete
      refine ⟨_, rfl, ?_⟩
      intro shape among
      cases shape with
      | int value =>
          have unlisted : sampleInt listed ≠ value := by
            rintro rfl
            exact (sampleInt_spec listed).1 (covers _ among)
          simp [demands, unlisted]
      | _ => rfl
  | strBesides listed =>
      cases List.length_eq_zero_iff.mp complete
      refine ⟨_, rfl, ?_⟩
      intro shape among
      cases shape with
      | str value =>
          have unlisted : sampleStr listed ≠ value := by
            rintro rfl
            exact sampleStr_not_mem listed (covers _ among)
          simp [demands, unlisted]
      | _ => rfl
  | _ =>
      cases List.length_eq_zero_iff.mp complete
      exact ⟨_, rfl, fun shape _ => by cases shape <;> rfl⟩

section Behind

variable {Var : Type} {rows : List Row} {head : Head Var}

theorem keptRows_congr {shown : Head Unit}
    (same : ∀ shape ∈ column rows, shown.demands shape = head.demands shape) :
    keptRows shown rows = keptRows head rows := by
  refine List.filterMap_congr ?_
  intro row among
  obtain ⟨shapes, branch, guarded⟩ := row
  cases shapes with
  | nil => rfl
  | cons first rest =>
      simp only [Row.under, same first (Row.mem_column among rfl)]

theorem rowsBehind_of_skips (skips : rows.all Row.skips = true) (witness : Witness)
    (rest : List Witness) :
    rowsBehind rows (witness :: rest) = rowsBehind (rows.map Row.tail) rest := by
  rw [rowsBehind, if_pos skips]

theorem rowsBehind_of_asks (asks : rows.all Row.skips = false) (covers : head.Covers (column rows))
    {witnesses : List Witness} (wide : head.arity ≤ witnesses.length) :
    rowsBehind rows (head.rebuild (witnesses.take head.arity) :: witnesses.drop head.arity)
      = rowsBehind (keptRows head rows) witnesses := by
  obtain ⟨shown, opened, same⟩ := Head.exists_opened_rebuild covers (List.length_take_of_le wide)
  rw [rowsBehind, if_neg (by simp [asks]), opened]
  dsimp only
  rw [keptRows_congr same, List.take_append_drop]

end Behind

/-! ## Heads that are computed -/

section Computed

variable {env : Environment} {level : Level} {store grown : Store} {rows : List Row}
  {rest : List (Ty MetaVar)} {heads : List (Head MetaVar)}

theorem constructorHeads_cover (column : List Shape) {args : List (Ty MetaVar)}
    {constructors : List Constructor}
    (runs : constructorHeads level args store constructors = .ok (heads, grown)) :
    ∀ head ∈ heads, head.Covers column := by
  induction constructors generalizing store heads grown with
  | nil =>
      cases runs
      exact List.forall_mem_nil _
  | cons constructor others inductionHypothesis =>
      rw [constructorHeads] at runs
      obtain ⟨⟨payload, first⟩, _, runs⟩ := ok_of_bind runs
      obtain ⟨root, _, runs⟩ := ok_of_bind runs
      obtain ⟨⟨more, last⟩, further, runs⟩ := ok_of_bind runs
      cases runs
      refine List.forall_mem_cons.mpr ⟨?_, inductionHypothesis further⟩
      split
      · trivial
      · trivial

theorem Environment.heads_cover {type : Ty MetaVar} {column : List Shape}
    (runs : env.heads level store type column = .ok (heads, grown)) :
    ∀ head ∈ heads, head.Covers column := by
  rw [Environment.heads] at runs
  obtain ⟨⟨root, expanded⟩, _, runs⟩ := ok_of_bind runs
  cases root with
  | base kind =>
      cases kind with
      | unit | bool =>
          cases runs
          simp [Head.Covers]
      | int =>
          cases runs
          refine List.forall_mem_append.mpr ⟨?_, List.forall_mem_singleton.mpr ?_⟩
          · exact List.forall_mem_map.mpr fun _ _ => trivial
          · exact fun value among => mem_listedInts.mpr among
      | string =>
          cases runs
          refine List.forall_mem_append.mpr ⟨?_, List.forall_mem_singleton.mpr ?_⟩
          · exact List.forall_mem_map.mpr fun _ _ => trivial
          · exact fun value among => mem_listedStrs.mpr among
      | _ =>
          obtain ⟨_, _, runs⟩ := ok_of_bind runs
          cases runs
  | list element =>
      cases runs
      simp [Head.Covers]
  | product components =>
      dsimp only at runs
      split at runs
      · cases runs
      · cases runs
        simp [Head.Covers]
  | data con args =>
      dsimp only at runs
      split at runs
      · cases runs
      · split at runs
        · cases runs
        · exact constructorHeads_cover column runs
  | _ =>
      obtain ⟨_, _, runs⟩ := ok_of_bind runs
      cases runs

end Computed

/-! ## Leaves without guards -/

def Findings.read (guards : Nat → Bool) (found : List Leaf × Store) : Findings × Store :=
  (.ofLeaves (found.1.map (.regard guards)), found.2)

/-- Whether a leaf has as many witnesses as there are slots, and the rows that these leave. -/
structure Leaf.EndsAt (rows : List Row) (slots : Nat) (leaf : Leaf) : Prop where
  complete : leaf.witnesses.length = slots
  rows_eq : leaf.rows = rowsBehind rows leaf.witnesses

/-- Whether computations, one for every choice of guards, have the leaves of one outcome in common. -/
structure Outcome (rows : List Row) (slots : Nat)
    (run : (Nat → Bool) → Except Fault (Findings × Store))
    (outcome : Except Fault (List Leaf × Store)) : Prop where
  runs : ∀ guards, run guards = outcome.map (Findings.read guards)
  ends : ∀ found, outcome = .ok found → ∀ leaf ∈ found.1, leaf.EndsAt rows slots

section Outcome

variable {rows : List Row} {slots : Nat} {run : (Nat → Bool) → Except Fault (Findings × Store)}

theorem Leaf.EndsAt.skip {leaf : Leaf} (skips : rows.all Row.skips = true)
    (endsAt : leaf.EndsAt (rows.map Row.tail) slots) : leaf.skip.EndsAt rows (slots + 1) where
  complete := by rw [Leaf.skip, List.length_cons, endsAt.complete]
  rows_eq := by
    rw [Leaf.skip, rowsBehind_of_skips skips]
    exact endsAt.rows_eq

theorem Leaf.EndsAt.fold {leaf : Leaf} {Var : Type} {head : Head Var}
    (asks : rows.all Row.skips = false) (covers : head.Covers (column rows))
    (endsAt : leaf.EndsAt (keptRows head rows) (head.arity + slots)) :
    (leaf.fold (head.retype fun _ => .var ())).EndsAt rows (slots + 1) where
  complete := by
    rw [Leaf.fold, List.length_cons, List.length_drop, endsAt.complete, Head.arity_retype]
    omega
  rows_eq := by
    have wide : head.arity ≤ leaf.witnesses.length := by
      rw [endsAt.complete]
      omega
    rw [Leaf.fold, Head.rebuild_retype, Head.arity_retype, rowsBehind_of_asks asks covers wide]
    exact endsAt.rows_eq

theorem Outcome.of_fault {fault : Fault} (fails : ∀ guards, run guards = .error fault) :
    Outcome rows slots run (.error fault) where
  runs := fails
  ends := by
    intro found isFound
    cases isFound

theorem Outcome.skip {outcome : Except Fault (List Leaf × Store)} (skips : rows.all Row.skips = true)
    (inner : Outcome (rows.map Row.tail) slots run outcome) :
    Outcome rows (slots + 1)
      (fun guards => (run guards).map fun found => (found.1.mapHoles Hole.skip, found.2))
      (outcome.map fun found => (found.1.map Leaf.skip, found.2)) where
  runs := by
    intro guards
    rw [inner.runs]
    cases outcome with
    | error fault => rfl
    | ok found =>
        simp only [Except.map, Findings.read, Findings.mapHoles_ofLeaves Leaf.findings_skip,
          List.map_map]
        rfl
  ends := by
    intro found isFound
    cases outcome with
    | error fault => cases isFound
    | ok inners =>
        cases isFound
        exact List.forall_mem_map.mpr fun leaf among => (inner.ends inners rfl leaf among).skip skips

theorem Outcome.fold_append {Var : Type} {head : Head Var} (asks : rows.all Row.skips = false)
    (covers : head.Covers (column rows)) {outcome : Except Fault (List Leaf × Store)}
    (first : Outcome (keptRows head rows) (head.arity + slots) run outcome)
    {more : Store → (Nat → Bool) → Except Fault (Findings × Store)}
    (second : ∀ grown, ∃ others, Outcome rows (slots + 1) (more grown) others) :
    ∃ together, Outcome rows (slots + 1)
      (fun guards => (run guards).bind fun found =>
        (more found.2 guards).map fun last =>
          ((found.1.mapHoles (Hole.fold head)).append last.1, last.2))
      together := by
  cases outcome with
  | error fault =>
      refine ⟨.error fault, .of_fault fun guards => ?_⟩
      rw [first.runs]
      rfl
  | ok found =>
      obtain ⟨outcome, others⟩ := second found.2
      cases outcome with
      | error fault =>
          refine ⟨.error fault, .of_fault fun guards => ?_⟩
          rw [first.runs]
          change (more found.2 guards).map _ = _
          rw [others.runs]
          rfl
      | ok last =>
          let folded := found.1.map (Leaf.fold (head.retype fun _ => .var ()))
          refine ⟨.ok (folded ++ last.1, last.2), ?_, ?_⟩
          · intro guards
            have inner := Findings.mapHoles_ofLeaves
              (Leaf.findings_fold (head.retype fun _ => .var ())) (found.1.map (.regard guards))
            rw [Hole.fold_retype] at inner
            rw [first.runs]
            change (more found.2 guards).map _ = _
            rw [others.runs]
            simp only [Except.map, Findings.read, inner, ← Findings.ofLeaves_append, List.map_append,
              folded, List.map_map]
            rfl
          · intro leaves isFound
            cases isFound
            refine List.forall_mem_append.mpr ⟨?_, others.ends last rfl⟩
            exact List.forall_mem_map.mpr fun leaf among =>
              (first.ends found rfl leaf among).fold asks covers

end Outcome

section Cover

variable {env : Environment} {level : Level} {rows : List Row} {rest : List (Ty MetaVar)}

theorem exists_outcome_heads (asks : rows.all Row.skips = false) {heads : List (Head MetaVar)}
    (covers : ∀ head ∈ heads, head.Covers (column rows))
    (each : ∀ (head : Head MetaVar) (store : Store), ∃ outcome,
      Outcome (keptRows head rows) (head.slots ++ rest).length
        (fun guards => cover env level store ((keptRows head rows).map (.regard guards))
          (head.slots ++ rest)) outcome)
    (store : Store) :
    ∃ outcome, Outcome rows (rest.length + 1)
      (fun guards => coverHeads env level store (rows.map (.regard guards)) rest heads
        ((all_skips_regard guards rows).trans asks)) outcome := by
  induction heads generalizing store with
  | nil =>
      refine ⟨.ok ([], store), ?_, ?_⟩
      · intro guards
        rw [coverHeads]
        rfl
      · intro found isFound
        cases isFound
        exact List.forall_mem_nil _
  | cons head more inductionHypothesis =>
      obtain ⟨headCovers, moreCover⟩ := List.forall_mem_cons.mp covers
      obtain ⟨outcome, first⟩ := each head store
      rw [List.length_append, head.length_slots] at first
      obtain ⟨together, isOutcome⟩ := first.fold_append asks headCovers (inductionHypothesis moreCover)
      refine ⟨together, ?_, isOutcome.ends⟩
      intro guards
      rw [coverHeads, keptRows_regard]
      exact isOutcome.runs guards

/-- Checks of the same rows with whatever guards leave the same store and come to the same leaves but for
the guards, or they all fail with one fault. -/
theorem exists_outcome (env : Environment) (level : Level) (store : Store) (rows : List Row)
    (slots : List (Ty MetaVar)) :
    ∃ outcome, Outcome rows slots.length
      (fun guards => cover env level store (rows.map (.regard guards)) slots) outcome := by
  match slots with
  | [] =>
      refine ⟨.ok ([⟨[], rows⟩], store), ?_, ?_⟩
      · intro guards
        rw [cover, ← Leaf.findings_done, ← Findings.append_none (Leaf.findings _)]
        rfl
      · intro found isFound
        cases isFound
        exact List.forall_mem_singleton.mpr ⟨rfl, by rw [rowsBehind]⟩
  | slot :: rest =>
      by_cases empty : rows = []
      · subst empty
        let witnesses := (slot :: rest).map fun _ => Witness.wildcard
        refine ⟨.ok ([⟨witnesses, []⟩], store), ?_, ?_⟩
        · intro guards
          rw [List.map_nil, cover, if_pos List.isEmpty_nil]
          rfl
        · intro found isFound
          cases isFound
          refine List.forall_mem_singleton.mpr ⟨List.length_map _, ?_⟩
          exact (rowsBehind_nil witnesses).symm
      · have nonempty : ∀ guards, ¬ (rows.map (Row.regard guards)).isEmpty = true := by
          intro guards
          simpa using empty
        cases skips : rows.all Row.skips with
        | true =>
            obtain ⟨outcome, inner⟩ := exists_outcome env level store (rows.map Row.tail) rest
            refine ⟨_, ?_, (inner.skip skips).ends⟩
            intro guards
            rw [cover, if_neg (nonempty guards), dif_pos ((all_skips_regard guards rows).trans skips),
              map_tail_regard]
            exact (inner.skip skips).runs guards
        | false =>
            have asking : ∀ guards, ¬ (rows.map (Row.regard guards)).all Row.skips = true := by
              intro guards
              rw [all_skips_regard, skips]
              exact Bool.false_ne_true
            cases listed : env.heads level store slot (column rows) with
            | error fault =>
                refine ⟨.error fault, .of_fault fun guards => ?_⟩
                rw [cover, if_neg (nonempty guards), dif_neg (asking guards), column_regard, listed]
                rfl
            | ok computed =>
                obtain ⟨heads, grown⟩ := computed
                -- Heads are listed without a look at guards, so the same rows are left behind each of them.
                obtain ⟨outcome, isOutcome⟩ := exists_outcome_heads skips
                  (Environment.heads_cover listed)
                  (fun head later =>
                    exists_outcome env level later (keptRows head rows) (head.slots ++ rest))
                  grown
                refine ⟨outcome, ?_, isOutcome.ends⟩
                intro guards
                rw [cover, if_neg (nonempty guards), dif_neg (asking guards), column_regard, listed]
                exact isOutcome.runs guards
termination_by (openNodes rows, slots.length)
decreasing_by
  · exact .left _ _ (openNodes_keptRows_lt head skips)
  · rw [openNodes_map_tail skips]
    exact .right _ (Nat.lt_succ_self _)

end Cover

end TypedMatch
