import TypedMatch.Proofs.Coverage.RepeatedConstructors
import TypedMatch.Proofs.Match.Safety

/-!
# Verdicts with constructors listed repeatedly

An environment that lists constructors again where they have been listed gives the same verdict on a match.
What a check finds again it has found before, so the removal of repetitions takes it away; that happens
before witnesses are counted and left out, and branches are reached or not however often.
-/

set_option autoImplicit false

namespace TypedMatch

section Findings

variable {findings others : Findings}

theorem Findings.Repeats.witnessesOf_eraseDups (repeats : Findings.Repeats .none findings others)
    (kind : HoleKind) :
    (Verdict.witnessesOf kind others).eraseDups = (Verdict.witnessesOf kind findings).eraseDups := by
  have kept : ∀ found : Findings, Verdict.witnessesOf kind found
      = found.holes.filterMap fun hole =>
          if hole.kind == kind then hole.witnesses.head? else Option.none :=
    fun found => List.filterMap_filter
  rw [kept, kept]
  exact (repeats.holes.filterMap _).eraseDups_eq

theorem Verdict.ofFindings_repeats (repeats : Findings.Repeats .none findings others) (span : Span)
    (options : Options) (branches : Nat) :
    Verdict.ofFindings span options branches others = .ofFindings span options branches findings := by
  have sameReached : ∀ index, others.reached.contains index = findings.reached.contains index := by
    intro index
    rw [Bool.eq_iff_iff, List.contains_iff_mem, List.contains_iff_mem, repeats.reached.mem_iff]
  simp only [ofFindings, Listing.ofWitnesses, repeats.witnessesOf_eraseDups, sameReached]

end Findings

namespace Match

variable {subject : Match} {env second : Environment} {store : Store}

/-- An environment that lists constructors repeatedly gives the same verdict on every match, and the check
fails with both or with none.  The store may hold any links, also ones that lead back to themselves. -/
theorem verdict_of_repetition (repeated : env.RepeatedBy second)
    (typeOwned : store.Owns subject.scrutinee.leaves) (envOwned : env.OwnedBy store) (level : Level)
    (options : Options) :
    (∃ verdict grown otherGrown, subject.verdict env level store options = .ok (verdict, grown) ∧
        subject.verdict second level store options = .ok (verdict, otherGrown)) ∨
      (∃ fault, subject.verdict env level store options = .error fault) ∧
        ∃ fault, subject.verdict second level store options = .error fault := by
  rw [verdict, verdict, Match.findings, Match.findings]
  cases made : Row.ofBranches 0 subject.branches with
  | error fault => exact .inr ⟨⟨fault, rfl⟩, fault, rfl⟩
  | ok rows =>
      have seen : store.RecognizesEach store [subject.scrutinee] :=
        List.forall_mem_singleton.mpr (.of_owns (.refl store) typeOwned)
      rcases cover_concur repeated envOwned level store store (.refl store) (.refl store) rows
        [subject.scrutinee] [subject.scrutinee] seen seen rfl with
        ⟨findings, others, grown, otherGrown, runs, otherRuns, repeats⟩ |
        ⟨⟨fault, fails⟩, otherFault, otherFails⟩
      · refine .inl ⟨.ofFindings subject.span options subject.branches.length findings, grown, otherGrown,
          ?_, ?_⟩
        · simp only [bind, Except.bind, runs]
          rfl
        · simp only [bind, Except.bind, otherRuns, Verdict.ofFindings_repeats repeats]
          rfl
      · refine .inr ⟨⟨fault, ?_⟩, otherFault, ?_⟩
        · simp only [bind, Except.bind, fails]
        · simp only [bind, Except.bind, otherFails]

end Match

/-! ## Queues with every constructor listed twice -/

def Environment.doubled (env : Environment) : Environment where
  constructors? := fun con => (env.constructors? con).map fun once => once ++ once
  abbreviates := env.abbreviates
  body? := env.body?
  bodies := env.bodies
  body?_mem := env.body?_mem

theorem Environment.repeatedBy_doubled (env : Environment) : env.RepeatedBy env.doubled where
  abbreviates := rfl
  body? := rfl
  declared := fun {_ once} declared =>
    ⟨once ++ once, congrArg (Option.map _) declared, .twice once⟩
  undeclared := congrArg (Option.map _)

namespace Match

/-- Queues of integers behind links get the same verdict where both constructors are listed twice. -/
theorem linkedMatch_doubled :
    (queueDeclarations.toEnvironment.doubled.constructors? queueCon).map (List.map Constructor.name)
        = some ["Empty", "Front", "Empty", "Front"] ∧
      queueDeclarations.toEnvironment.RepeatedBy queueDeclarations.toEnvironment.doubled ∧
      linkedStore.Owns linkedMatch.scrutinee.leaves ∧
      queueDeclarations.toEnvironment.OwnedBy linkedStore ∧
      ∃ verdict grown otherGrown,
        linkedMatch.verdict queueDeclarations.toEnvironment .bottom linkedStore {}
          = .ok (verdict, grown) ∧
        linkedMatch.verdict queueDeclarations.toEnvironment.doubled .bottom linkedStore {}
          = .ok (verdict, otherGrown) := by
  have repeated := queueDeclarations.toEnvironment.repeatedBy_doubled
  have wellTyped := linkedMatch_wellTyped
  refine ⟨rfl, repeated, wellTyped.typeOwned, wellTyped.envOwned, ?_⟩
  rcases verdict_of_repetition repeated wellTyped.typeOwned wellTyped.envOwned .bottom {} with
    same | ⟨⟨fault, fails⟩, _⟩
  · exact same
  · obtain ⟨result, succeeds⟩ := wellTyped.verdict_ok .bottom {}
    cases fails.symm.trans succeeds

end Match

end TypedMatch
