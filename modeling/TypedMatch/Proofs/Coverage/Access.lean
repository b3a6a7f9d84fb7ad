import TypedMatch.Declaration.Basic
import TypedMatch.Proofs.Coverage.Faults
import TypedMatch.Proofs.Coverage.Width

/-!
# Whatever a check looks for is there

A check looks at the first shape of every row, takes it away, cuts the witnesses of a head's parts off those
of a hole, and puts them together.  Here is a check that does all this with care: it stops where something is
looked for and is not there, where the check itself would go on with something in its place.  On rows that
have one shape for each slot both come to the same end, whatever types the slots have and whether or not the
shapes fit them.  Every call is of this kind again, and a hole has one witness for each slot of its call.
-/

set_option autoImplicit false

namespace TypedMatch

inductive Stop where
  /-- Something is looked for that is not there. -/
  | missing
  | fault (fault : Fault)
deriving DecidableEq, Repr

def withCare {Value : Type} (outcome : Except Fault Value) : Except Stop Value :=
  outcome.mapError .fault

/-! ## Accesses -/

section Accesses

variable {Var : Type}

def Row.first (row : Row) : Except Stop Shape :=
  match row.shapes with
  | [] => .error .missing
  | first :: _ => .ok first

def Row.dropFirst (row : Row) : Except Stop Row :=
  match row.shapes with
  | [] => .error .missing
  | _ :: rest => .ok { row with shapes := rest }

def Row.underFirst (head : Head Var) (row : Row) : Except Stop (Option Row) := do
  let first ← row.first
  let others ← row.dropFirst
  return (head.demands first).map fun parts => { row with shapes := parts ++ others.shapes }

def Head.rebuildWhole (head : Head Var) (parts : List Witness) : Except Stop Witness :=
  match head, parts with
  | .cons _, [first, rest] => .ok (.cons first rest)
  | .cons _, _ => .error .missing
  | .applied name _, [payload] => .ok (.applied name payload)
  | .applied _ _, _ => .error .missing
  | head, parts => .ok (head.rebuild parts)

def cutOff {Item : Type} (count : Nat) (items : List Item) : Except Stop (List Item × List Item) :=
  if count ≤ items.length then .ok (items.take count, items.drop count) else .error .missing

def Hole.foldWhole (head : Head Var) (hole : Hole) : Except Stop Hole := do
  let (parts, others) ← cutOff head.arity hole.witnesses
  let witness ← head.rebuildWhole parts
  return { hole with witnesses := witness :: others }

end Accesses

namespace Query

def carefulHeads (answer : Query → Except Stop (Findings × Store)) (rows : List Row)
    (rest : List (Ty MetaVar)) : Store → List (Head MetaVar) → Except Stop (Findings × Store)
  | store, [] => .ok (.none, store)
  | store, head :: more => do
      let kept ← rows.mapM (Row.underFirst head)
      let (inner, grown) ← answer ⟨store, kept.reduceOption, head.slots ++ rest⟩
      let holes ← inner.holes.mapM (Hole.foldWhole head)
      let (others, last) ← carefulHeads answer rows rest grown more
      return ((Findings.mk holes inner.reached).append others, last)

/-- One round of a check that takes care, with the answers to the calls taken from elsewhere. -/
def carefulFrom (env : Environment) (level : Level) (answer : Query → Except Stop (Findings × Store))
    (query : Query) : Except Stop (Findings × Store) :=
  match query.slots with
  | [] => .ok (.ofRows query.rows, query.store)
  | slot :: rest =>
      if query.rows.isEmpty then .ok (.unmatched (slot :: rest), query.store)
      else do
        let column ← query.rows.mapM Row.first
        if column.all Shape.isBlank then do
          let rows ← query.rows.mapM Row.dropFirst
          let (findings, grown) ← answer ⟨query.store, rows, rest⟩
          return (findings.mapHoles Hole.skip, grown)
        else do
          let (heads, grown) ← withCare (env.heads level query.store slot column)
          carefulHeads answer query.rows rest grown heads

/-- Several rounds of a check that takes care, with the answers to calls beyond the last round taken from
elsewhere. -/
def careful (env : Environment) (level : Level) (beyond : Query → Except Stop (Findings × Store)) :
    Nat → Query → Except Stop (Findings × Store)
  | 0 => beyond
  | rounds + 1 => carefulFrom env level (careful env level beyond rounds)

-- A row that is shorter than the slots would be noticed.
example (answer : Query → Except Stop (Findings × Store)) :
    carefulFrom Declarations.empty.toEnvironment .bottom answer
      ⟨.empty, [⟨[.int 3, .unit], 0, false⟩, ⟨[], 1, false⟩], [.base .int, .base .unit]⟩
        = .error .missing := rfl

end Query

/-! ## Accesses in range -/

theorem mapM_eq_ok {Item Result : Type} {step : Item → Except Stop Result} {value : Item → Result}
    {items : List Item} (each : ∀ item ∈ items, step item = .ok (value item)) :
    items.mapM step = .ok (items.map value) := by
  induction items with
  | nil => rfl
  | cons item rest inductionHypothesis =>
      obtain ⟨first, others⟩ := List.forall_mem_cons.mp each
      rw [List.mapM_cons, first, inductionHypothesis others]
      rfl

section InRange

variable {Var : Type} {head : Head Var} {row : Row} {rows : List Row}

theorem Row.dropFirst_eq_ok (nonempty : row.shapes ≠ []) : row.dropFirst = .ok row.tail := by
  obtain ⟨shapes, branch, guarded⟩ := row
  cases shapes with
  | nil => exact absurd rfl nonempty
  | cons first rest => rfl

theorem Row.underFirst_eq_ok (nonempty : row.shapes ≠ []) :
    row.underFirst head = .ok (row.under head) := by
  obtain ⟨shapes, branch, guarded⟩ := row
  cases shapes with
  | nil => exact absurd rfl nonempty
  | cons first rest => rfl

theorem mapM_first (nonempty : ∀ row ∈ rows, row.shapes ≠ []) :
    rows.mapM Row.first = .ok (column rows) ∧
      (column rows).all Shape.isBlank = rows.all Row.skips := by
  induction rows with
  | nil => exact ⟨rfl, rfl⟩
  | cons row rest inductionHypothesis =>
      obtain ⟨firstNonempty, restNonempty⟩ := List.forall_mem_cons.mp nonempty
      obtain ⟨restColumn, restBlank⟩ := inductionHypothesis restNonempty
      obtain ⟨shapes, branch, guarded⟩ := row
      cases shapes with
      | nil => exact absurd rfl firstNonempty
      | cons first shapes =>
          refine ⟨?_, ?_⟩
          · rw [List.mapM_cons, restColumn]
            rfl
          · rw [List.all_cons, ← restBlank]
            rfl

theorem Head.rebuildWhole_eq_ok {parts : List Witness} (complete : parts.length = head.arity) :
    head.rebuildWhole parts = .ok (head.rebuild parts) := by
  cases head with
  | cons element =>
      obtain ⟨first, rest, rfl⟩ := List.length_eq_two.mp complete
      rfl
  | applied name payload =>
      obtain ⟨inner, rfl⟩ := List.length_eq_one_iff.mp complete
      rfl
  | _ => rfl

theorem Hole.foldWhole_eq_ok {hole : Hole} (wide : head.arity ≤ hole.witnesses.length) :
    hole.foldWhole head = .ok (hole.fold head) := by
  have complete : (hole.witnesses.take head.arity).length = head.arity := List.length_take_of_le wide
  rw [foldWhole, cutOff, if_pos wide]
  simp only [bind, Except.bind, Head.rebuildWhole_eq_ok complete]
  rfl

end InRange

namespace Query

variable {env : Environment} {level : Level} {query later : Query} {rows : List Row}
  {rest : List (Ty MetaVar)} {answer : Query → Except Stop (Findings × Store)}

theorem arity_le_of_run {head : Head MetaVar} {store : Store} {kept : List Row} {inner : Findings × Store}
    (ran : run env level ⟨store, kept, head.slots ++ rest⟩ = .ok inner) :
    ∀ hole ∈ inner.1.holes, head.arity ≤ hole.witnesses.length := by
  intro hole found
  rw [length_witnesses _ inner.1 inner.2 ran hole found, List.length_append, Head.length_slots]
  exact Nat.le_add_right _ _

theorem carefulHeads_eq (nonempty : ∀ row ∈ rows, row.shapes ≠ []) {heads : List (Head MetaVar)}
    {store : Store}
    (agree : ∀ next ∈ behind env level rows rest store heads,
      answer next = withCare (next.run env level)) :
    carefulHeads answer rows rest store heads
      = withCare (headsFrom (run env level) rows rest store heads) := by
  induction heads generalizing store with
  | nil => rfl
  | cons head more inductionHypothesis =>
      have kept : rows.mapM (Row.underFirst head) = .ok (rows.map (Row.under head)) :=
        mapM_eq_ok fun row among => Row.underFirst_eq_ok (nonempty row among)
      have keptRows_eq : (rows.map (Row.under head)).reduceOption = keptRows head rows :=
        List.filterMap_map
      rw [behind] at agree
      rw [carefulHeads, kept, headsFrom]
      simp only [bind, Except.bind, keptRows_eq]
      cases ran : run env level ⟨store, keptRows head rows, head.slots ++ rest⟩ with
      | error fault =>
          simp only [ran] at agree
          rw [agree _ (.head _), ran]
          rfl
      | ok inner =>
          simp only [ran] at agree
          obtain ⟨first, further⟩ := List.forall_mem_cons.mp agree
          have folded : inner.1.holes.mapM (Hole.foldWhole head)
              = .ok (inner.1.holes.map (Hole.fold head)) :=
            mapM_eq_ok fun hole found => Hole.foldWhole_eq_ok (arity_le_of_run ran hole found)
          rw [first, ran]
          simp only [withCare, Except.mapError, folded]
          rw [inductionHypothesis further]
          cases headsFrom (run env level) rows rest inner.2 more with
          | error fault => rfl
          | ok others => rfl

theorem Wide.nonempty {slot : Ty MetaVar} (wide : query.Wide) (isCons : query.slots = slot :: rest) :
    ∀ row ∈ query.rows, row.shapes ≠ [] := by
  intro row among
  apply List.ne_nil_of_length_pos
  rw [wide row among, isCons]
  exact Nat.succ_pos _

theorem carefulFrom_eq (wide : query.Wide)
    (agree : ∀ next ∈ query.made env level, answer next = withCare (next.run env level)) :
    carefulFrom env level answer query = withCare (query.run env level) := by
  obtain ⟨store, rows, slots⟩ := query
  rw [run_eq, carefulFrom, runFrom]
  rw [made] at agree
  cases slots with
  | nil => rfl
  | cons slot rest =>
      have rowsNonempty : ∀ row ∈ rows, row.shapes ≠ [] := wide.nonempty rfl
      obtain ⟨columnEq, blankEq⟩ := mapM_first rowsNonempty
      dsimp only at agree ⊢
      split
      · rfl
      · rename_i some
        rw [if_neg some] at agree
        rw [columnEq]
        simp only [bind, Except.bind, blankEq]
        split
        · rename_i skips
          rw [if_pos skips] at agree
          have tails : rows.mapM Row.dropFirst = .ok (rows.map Row.tail) :=
            mapM_eq_ok fun row among => Row.dropFirst_eq_ok (rowsNonempty row among)
          rw [tails]
          simp only [agree _ (.head _)]
          cases run env level ⟨store, rows.map Row.tail, rest⟩ with
          | error fault => rfl
          | ok found => rfl
        · rename_i asks
          rw [if_neg asks] at agree
          cases listed : env.heads level store slot (column rows) with
          | error fault => rfl
          | ok result =>
              obtain ⟨heads, grown⟩ := result
              rw [listed] at agree
              exact carefulHeads_eq rowsNonempty agree

/-- A check of wide rows that takes care comes to the same end as the check, from some number of rounds
on. -/
theorem Wide.careful_eq (wide : query.Wide) :
    ∃ rounds, ∀ more, rounds ≤ more → ∀ beyond,
      careful env level beyond more query = withCare (query.run env level) := by
  induction query using (made_wellFounded env level).induction with
  | _ query inductionHypothesis =>
      obtain ⟨rounds, allSame⟩ := exists_settled fun next isMade =>
        inductionHypothesis next isMade (wide.of_mem_made isMade)
      refine ⟨rounds + 1, ?_⟩
      intro more enough beyond
      cases more with
      | zero => exact absurd enough (Nat.not_succ_le_zero _)
      | succ more =>
          exact carefulFrom_eq wide fun next isMade =>
            allSame more (Nat.le_of_succ_le_succ enough) next isMade beyond

/-- Whether a call finds whatever it looks for, and is stopped by nothing but faults that are announced. -/
structure InRange (env : Environment) (level : Level) (query : Query) : Prop where
  /-- Every row has one shape for each slot. -/
  wide : query.Wide
  /-- Every hole has one witness for each slot. -/
  witnesses : ∀ findings grown, query.run env level = .ok (findings, grown) →
    ∀ hole ∈ findings.holes, hole.witnesses.length = query.slots.length
  /-- Nothing is different if every access has to be in range. -/
  careful : ∃ rounds, ∀ more, rounds ≤ more → ∀ beyond,
    careful env level beyond more query = withCare (query.run env level)
  faults : FailsBy env.Stops (query.run env level)

theorem Wide.inRange (wide : query.Wide) : query.InRange env level where
  wide
  witnesses := query.length_witnesses
  careful := wide.careful_eq
  faults := cover_failsBy env level query.store query.rows query.slots

end Query

/-! ## Matches -/

theorem Row.length_of_ofBranches {index : Nat} {branches : List Branch} {rows : List Row}
    (made : ofBranches index branches = .ok rows) : ∀ row ∈ rows, row.shapes.length = 1 := by
  induction branches generalizing index rows with
  | nil =>
      cases made
      exact List.forall_mem_nil _
  | cons branch rest inductionHypothesis =>
      obtain ⟨shape, _, made⟩ := ok_of_bind made
      obtain ⟨others, othersMade, made⟩ := ok_of_bind made
      cases made
      exact List.forall_mem_cons.mpr ⟨rfl, inductionHypothesis othersMade⟩

theorem Match.wide_of_ofBranches (subject : Match) (store : Store) {rows : List Row}
    (made : Row.ofBranches 0 subject.branches = .ok rows) :
    (Query.mk store rows [subject.scrutinee]).Wide :=
  Row.length_of_ofBranches made

/-- All calls of a check of wide rows are in range, whatever types the slots have.  So are all calls of
the check of a match; each of its holes has one witness, and what stops it is something at the wrong place in
a pattern, or stops one of the calls. -/
theorem Match.calls_inRange (env : Environment) (level : Level) :
    (∀ query : Query, query.Wide → ∀ later, query.Leads env level later → later.InRange env level) ∧
      ∀ (subject : Match) (store : Store),
        (∀ rows, Row.ofBranches 0 subject.branches = .ok rows → ∀ later,
          Query.Leads env level ⟨store, rows, [subject.scrutinee]⟩ later →
            later.InRange env level) ∧
        (∀ findings grown, subject.findings env level store = .ok (findings, grown) →
          ∀ hole ∈ findings.holes, ∃ witness, hole.witnesses = [witness]) ∧
        ∀ options, FailsBy (fun fault => subject.Misplaces fault ∨ env.Stops fault)
          (subject.verdict env level store options) := by
  have inRange (query : Query) (wide : query.Wide) (later : Query)
      (leads : query.Leads env level later) : later.InRange env level :=
    (wide.of_leads leads).inRange
  refine ⟨inRange, ?_⟩
  intro subject store
  refine ⟨?_, ?_, fun options => (subject.findings_failsBy env level store).bind fun found => .ok _⟩
  · intro rows made
    exact inRange _ (subject.wide_of_ofBranches store made)
  · intro findings grown found hole among
    obtain ⟨rows, made, ran⟩ := ok_of_bind found
    have complete := (Query.mk store rows [subject.scrutinee]).length_witnesses findings grown ran hole
      among
    exact List.length_eq_one_iff.mp complete

/-- Rows against a product with one component and a truth value.  The integer at the second slot does not
fit, and neither does the list at the first one. -/
def misfitQuery : Query where
  store := .empty
  rows := [⟨[.tuple [.int 3], .int 7], 0, false⟩, ⟨[.wildcard, .bool true], 1, true⟩,
    ⟨[.nil, .wildcard], 2, false⟩]
  slots := [.product [.base .int], .base .bool]

def misfitInner : Query where
  store := .empty
  rows := [⟨[.int 3, .int 7], 0, false⟩, ⟨[.wildcard, .bool true], 1, true⟩]
  slots := [.base .int, .base .bool]

/-- The call behind the tuple is in range, although not all of its rows fit. -/
theorem misfitInner_inRange :
    misfitQuery.Wide ∧ misfitQuery.Leads Declarations.empty.toEnvironment .bottom misfitInner ∧
      misfitInner.InRange Declarations.empty.toEnvironment .bottom := by
  have wide : misfitQuery.Wide := by simp [Query.Wide, misfitQuery]
  have isMade : misfitInner ∈ misfitQuery.made Declarations.empty.toEnvironment .bottom := by
    change misfitInner ∈ Query.behind Declarations.empty.toEnvironment .bottom misfitQuery.rows
      [.base .bool] .empty [.tuple [.base .int]]
    rw [Query.behind]
    split
    · exact .head _
    · exact .head _
  have leads : misfitQuery.Leads Declarations.empty.toEnvironment .bottom misfitInner :=
    .single isMade
  exact ⟨wide, leads,
    (Match.calls_inRange Declarations.empty.toEnvironment .bottom).1 misfitQuery wide misfitInner leads⟩

end TypedMatch
