import TypedMatch.Proofs.Match.Safety
import TypedMatch.Proofs.Store.Zonk

/-!
# Links and synonyms do not show

Two types that are the same once links have been followed everywhere and synonyms have given way to what
they stand for have the same outline.  What a check finds out is decided by outlines, so it is the same
for both.
-/

set_option autoImplicit false

namespace TypedMatch.Match

variable {subject : Match} {env second : Environment} {store : Store} {other : Ty MetaVar}

/-- Checks of a match at two types, with their environments, find out the same or both fail, if the same is
to be found out at the outlines. -/
theorem findings_agree_of_finds (acyclic : store.Acyclic) (envOwned : env.OwnedBy store)
    (secondOwned : second.OwnedBy store) (typeOwned : store.Owns subject.scrutinee.leaves)
    (otherOwned : store.Owns other.leaves)
    (same : ∀ rows findings, (env.outline store).Finds rows [store.outline subject.scrutinee] findings ↔
      (second.outline store).Finds rows [store.outline other] findings) (level : Level) :
    (∃ findings grown otherGrown, subject.findings env level store = .ok (findings, grown) ∧
      { subject with scrutinee := other }.findings second level store = .ok (findings, otherGrown)) ∨
      (∃ fault, subject.findings env level store = .error fault) ∧
        ∃ fault, { subject with scrutinee := other }.findings second level store = .error fault := by
  rw [findings, findings]
  cases made : Row.ofBranches 0 subject.branches with
  | error fault => exact .inr ⟨⟨fault, rfl⟩, fault, rfl⟩
  | ok rows =>
      have decides := cover_decides acyclic envOwned level store (.refl store) rows
        [subject.scrutinee] (List.forall_mem_singleton.mpr typeOwned)
      have otherDecides := cover_decides acyclic secondOwned level store (.refl store) rows [other]
        (List.forall_mem_singleton.mpr otherOwned)
      have sameDecides := otherDecides.of_extends (.refl store) (same rows)
      exact decides.agree sameDecides Environment.Finds.unique

theorem findings_agree (acyclic : store.Acyclic) (envOwned : env.OwnedBy store)
    (typeOwned : store.Owns subject.scrutinee.leaves) (otherOwned : store.Owns other.leaves)
    (same : store.outline subject.scrutinee = store.outline other) (level : Level) :
    (∃ findings grown otherGrown, subject.findings env level store = .ok (findings, grown) ∧
      { subject with scrutinee := other }.findings env level store = .ok (findings, otherGrown)) ∨
      (∃ fault, subject.findings env level store = .error fault) ∧
        ∃ fault, { subject with scrutinee := other }.findings env level store = .error fault := by
  apply findings_agree_of_finds acyclic envOwned envOwned typeOwned otherOwned
  intro rows findings
  rw [same]

/-- A match has the same verdict at two types that are the same once links and synonyms have been
resolved everywhere, or neither check succeeds. -/
theorem verdict_eq_of_resolution_eq (acyclic : store.Acyclic) (envOwned : env.OwnedBy store)
    (typeOwned : store.Owns subject.scrutinee.leaves) (otherOwned : store.Owns other.leaves)
    (same : store.resolution subject.scrutinee = store.resolution other) (level : Level)
    (options : Options) :
    (∃ verdict grown otherGrown,
      subject.verdict env level store options = .ok (verdict, grown) ∧
        { subject with scrutinee := other }.verdict env level store options
          = .ok (verdict, otherGrown)) ∨
      (∃ fault, subject.verdict env level store options = .error fault) ∧
        ∃ fault, { subject with scrutinee := other }.verdict env level store options
          = .error fault := by
  have sameOutline : store.outline subject.scrutinee = store.outline other := by
    rw [Store.outline_eq, Store.outline_eq, same]
  rw [verdict, verdict]
  rcases findings_agree acyclic envOwned typeOwned otherOwned sameOutline level with
    ⟨findings, grown, otherGrown, runs, otherRuns⟩ | ⟨⟨fault, fails⟩, otherFault, otherFails⟩
  · rw [runs, otherRuns]
    exact .inl ⟨_, grown, otherGrown, rfl, rfl⟩
  · rw [fails, otherFails]
    exact .inr ⟨⟨fault, rfl⟩, otherFault, rfl⟩

/-- A link to queues of a synonym of integers is another type than queues of integers, but it is resolved
to the same one, and both are checked alike. -/
theorem linkedMatch_verdict_eq :
    linkedMatch.scrutinee ≠ queueMatch.scrutinee ∧
      linkedStore.resolution linkedMatch.scrutinee = linkedStore.resolution queueMatch.scrutinee ∧
      ∃ verdict grown otherGrown,
        linkedMatch.verdict queueDeclarations.toEnvironment .bottom linkedStore {}
          = .ok (verdict, grown) ∧
        queueMatch.verdict queueDeclarations.toEnvironment .bottom linkedStore {}
          = .ok (verdict, otherGrown) := by
  have wellTyped := linkedMatch_wellTyped
  have queueOwned : linkedStore.Owns queueMatch.scrutinee.leaves := Store.owns_nil
  have differs : linkedMatch.scrutinee ≠ queueMatch.scrutinee := by
    intro same
    cases same
  have resolved :
      linkedStore.resolution linkedMatch.scrutinee = linkedStore.resolution queueMatch.scrutinee := rfl
  refine ⟨differs, resolved, ?_⟩
  have agrees := verdict_eq_of_resolution_eq wellTyped.acyclic wellTyped.envOwned wellTyped.typeOwned
    queueOwned resolved .bottom {}
  rcases agrees with same | ⟨⟨fault, fails⟩, _⟩
  · exact same
  · obtain ⟨result, runs⟩ := wellTyped.verdict_ok .bottom {}
    cases runs.symm.trans fails

end TypedMatch.Match
