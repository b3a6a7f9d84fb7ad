import TypedMatch.Proofs.Coverage.Calls

/-!
# Rows stay as wide as the slots

Where every row of a check has one shape for each slot, the rows of all its calls have, whatever types
the slots have.  Every hole that a check finds has one witness for each slot.  So there always is a shape
for the first slot to look at, and always a witness for every part that a head puts together.  A check
that succeeds makes calls that succeed, and no others.
-/

set_option autoImplicit false

namespace TypedMatch

theorem Row.length_under {Var : Type} {head : Head Var} {row kept : Row}
    (keeps : row.under head = some kept) :
    kept.shapes.length + 1 = head.arity + row.shapes.length := by
  obtain ⟨shapes, branch, guarded⟩ := row
  cases shapes with
  | nil => cases keeps
  | cons first rest =>
      obtain ⟨demanded, demands, rfl⟩ := Option.map_eq_some_iff.mp keeps
      rw [List.length_append, Head.length_demands demands, List.length_cons, Nat.add_assoc]

theorem Findings.witnesses_of_mem_ofRows {rows : List Row} {hole : Hole}
    (found : hole ∈ (ofRows rows).holes) : hole.witnesses = [] := by
  unfold ofRows at found
  split at found
  · cases List.mem_singleton.mp found
    rfl
  · cases List.mem_singleton.mp found
    rfl
  · cases found

theorem Hole.length_fold {Var : Type} {head : Head Var} {rest : List (Ty Var)} {hole : Hole}
    (complete : hole.witnesses.length = (head.slots ++ rest).length) :
    (hole.fold head).witnesses.length = rest.length + 1 := by
  rw [List.length_append] at complete
  rw [fold, List.length_cons, List.length_drop, complete, Head.length_slots, Nat.add_sub_cancel_left]

namespace Query

variable {env : Environment} {level : Level} {query next later : Query} {rows : List Row}
  {rest : List (Ty MetaVar)} {heads : List (Head MetaVar)} {store grown : Store} {findings : Findings}

/-- Whether every row has one shape for each slot. -/
def Wide (query : Query) : Prop := ∀ row ∈ query.rows, row.shapes.length = query.slots.length

theorem Wide.of_mem_made (wide : query.Wide) (isMade : next ∈ query.made env level) : next.Wide := by
  intro row among
  obtain ⟨slot, rest, slotsEq, ⟨_, rowsEq, restEq⟩ | ⟨_, head, rowsEq, restEq⟩⟩ := mem_made isMade
  · rw [rowsEq] at among
    obtain ⟨original, inRows, rfl⟩ := List.mem_map.mp among
    have originalWide := wide original inRows
    rw [slotsEq, List.length_cons] at originalWide
    rw [restEq, Row.tail, List.length_tail, originalWide, Nat.add_sub_cancel]
  · rw [rowsEq] at among
    obtain ⟨original, inRows, keeps⟩ := List.mem_filterMap.mp among
    have originalWide := wide original inRows
    have keptWide := Row.length_under keeps
    rw [slotsEq, List.length_cons] at originalWide
    rw [restEq, List.length_append, Head.length_slots]
    omega

theorem Wide.of_leads (wide : query.Wide) (leads : query.Leads env level later) : later.Wide := by
  induction leads with
  | refl => exact wide
  | tail _ isMade inductionHypothesis => exact inductionHypothesis.of_mem_made isMade

/-! ## The calls of a check that succeeds -/

theorem headsFrom_run_cons {head : Head MetaVar} {more : List (Head MetaVar)} {last : Store}
    (ran : headsFrom (run env level) rows rest store (head :: more) = .ok (findings, last)) :
    ∃ inner others, run env level ⟨store, keptRows head rows, head.slots ++ rest⟩ = .ok inner ∧
      headsFrom (run env level) rows rest inner.2 more = .ok (others, last) ∧
      findings = (inner.1.mapHoles (Hole.fold head)).append others ∧
      behind env level rows rest store (head :: more)
        = ⟨store, keptRows head rows, head.slots ++ rest⟩ :: behind env level rows rest inner.2 more := by
  rw [headsFrom] at ran
  obtain ⟨inner, first, ran⟩ := ok_of_bind ran
  obtain ⟨others, further, ran⟩ := ok_of_bind ran
  cases ran
  refine ⟨inner, others.1, first, further, rfl, ?_⟩
  rw [behind]
  simp only [first]

theorem run_eq (query : Query) : query.run env level = runFrom env level (run env level) query :=
  (runFrom_eq fun _ _ => rfl).symm

theorem run_ok_of_mem_behind {last : Store}
    (ran : headsFrom (run env level) rows rest store heads = .ok (findings, last))
    (isMade : next ∈ behind env level rows rest store heads) :
    ∃ result, next.run env level = .ok result := by
  induction heads generalizing store findings with
  | nil => cases isMade
  | cons head more inductionHypothesis =>
      obtain ⟨inner, others, first, further, _, calls⟩ := headsFrom_run_cons ran
      rw [calls] at isMade
      rcases List.mem_cons.mp isMade with rfl | isLater
      · exact ⟨inner, first⟩
      · exact inductionHypothesis further isLater

theorem run_ok_of_mem_made {result : Findings × Store} (ran : query.run env level = .ok result)
    (isMade : next ∈ query.made env level) : ∃ result, next.run env level = .ok result := by
  obtain ⟨store, rows, slots⟩ := query
  rw [run_eq, runFrom] at ran
  rw [made] at isMade
  cases slots with
  | nil => cases isMade
  | cons slot rest =>
      dsimp only at ran isMade
      split at isMade
      · cases isMade
      · rename_i nonempty
        rw [if_neg nonempty] at ran
        split at isMade
        · rename_i skips
          rw [if_pos skips] at ran
          cases List.mem_singleton.mp isMade
          obtain ⟨inner, first, _⟩ := ok_of_bind ran
          exact ⟨inner, first⟩
        · rename_i asks
          rw [if_neg asks] at ran
          obtain ⟨⟨heads, grown⟩, listed, ran⟩ := ok_of_bind ran
          rw [listed] at isMade
          exact run_ok_of_mem_behind ran isMade

theorem Leads.run_ok (leads : query.Leads env level later) {result : Findings × Store}
    (ran : query.run env level = .ok result) : ∃ result, later.run env level = .ok result := by
  induction leads with
  | refl => exact ⟨result, ran⟩
  | tail _ isMade inductionHypothesis =>
      obtain ⟨_, innerRan⟩ := inductionHypothesis
      exact run_ok_of_mem_made innerRan isMade

/-! ## Holes -/

theorem length_witnesses_behind {last : Store}
    (ran : headsFrom (run env level) rows rest store heads = .ok (findings, last))
    (each : ∀ next ∈ behind env level rows rest store heads, ∀ findings grown,
      next.run env level = .ok (findings, grown) →
        ∀ hole ∈ findings.holes, hole.witnesses.length = next.slots.length) :
    ∀ hole ∈ findings.holes, hole.witnesses.length = rest.length + 1 := by
  induction heads generalizing store findings with
  | nil =>
      cases ran
      exact List.forall_mem_nil _
  | cons head more inductionHypothesis =>
      obtain ⟨inner, others, first, further, rfl, calls⟩ := headsFrom_run_cons ran
      rw [calls] at each
      obtain ⟨firstEach, moreEach⟩ := List.forall_mem_cons.mp each
      intro hole found
      rcases List.mem_append.mp found with behindFirst | behindMore
      · obtain ⟨unfolded, inInner, rfl⟩ := List.mem_map.mp behindFirst
        exact Hole.length_fold (firstEach inner.1 inner.2 first unfolded inInner)
      · exact inductionHypothesis further moreEach hole behindMore

/-- Every hole that a check finds has one witness for each slot. -/
theorem length_witnesses (query : Query) : ∀ findings grown,
    query.run env level = .ok (findings, grown) →
      ∀ hole ∈ findings.holes, hole.witnesses.length = query.slots.length := by
  induction query using (made_wellFounded env level).induction with
  | _ query inductionHypothesis =>
      obtain ⟨store, rows, slots⟩ := query
      intro findings grown ran
      rw [run_eq, runFrom] at ran
      cases slots with
      | nil =>
          cases ran
          intro hole found
          rw [Findings.witnesses_of_mem_ofRows found]
          rfl
      | cons slot rest =>
          rw [made] at inductionHypothesis
          dsimp only at ran inductionHypothesis
          split at ran
          · cases ran
            intro hole found
            cases List.mem_singleton.mp found
            exact List.length_map _
          · rename_i nonempty
            rw [if_neg nonempty] at inductionHypothesis
            split at ran
            · rename_i skips
              rw [if_pos skips] at inductionHypothesis
              obtain ⟨inner, first, ran⟩ := ok_of_bind ran
              cases ran
              intro hole found
              obtain ⟨unskipped, inInner, rfl⟩ := List.mem_map.mp found
              have width := inductionHypothesis _ (.head _) inner.1 inner.2 first unskipped inInner
              exact congrArg (· + 1) width
            · rename_i asks
              rw [if_neg asks] at inductionHypothesis
              obtain ⟨⟨heads, grown⟩, listed, ran⟩ := ok_of_bind ran
              rw [listed] at inductionHypothesis
              exact length_witnesses_behind ran inductionHypothesis

end Query

end TypedMatch
