import TypedMatch.Proofs.Coverage.Twins
import TypedMatch.Proofs.Match.Safety
import TypedMatch.Scheme.Generalize

/-!
# What comes before a check does not matter

A check leaves every cell as it is, links nothing, and adds cells of new free variables only.  So whatever
else is minted, instantiated, generalised or checked in between, a check that has succeeded once succeeds
again with the same verdict, at any level.  The new variables have other numbers then, but nothing in a
verdict tells variables apart.  Links that lead back to themselves are allowed as long as the first check
gets by without them.
-/

set_option autoImplicit false

namespace TypedMatch

/-- Whether a store may be what another one has become, while variables were minted, schemes instantiated,
types generalised and matches checked. -/
inductive Store.Becomes (store : Store) : Store → Prop where
  | now : Becomes store store
  | newVar {later : Store} (kind : Kind MetaVar) (quantification : Quantification) (level : Level) :
      Becomes store later → Becomes store (later.newVar kind quantification level).2
  | newBound {later : Store} : Becomes store later → Becomes store later.newBound.2
  | instantiate {later : Store} (level : Level) (quantification : Quantification) (scheme : Scheme) :
      Becomes store later → Becomes store (later.instantiate level quantification scheme).2
  | generalize {later last : Store} {level : Level} {type : Ty MetaVar} {scheme : Scheme} :
      Becomes store later → later.generalize level type = .ok (scheme, last) → Becomes store last
  | verdict {later last : Store} {subject : Match} {env : Environment} {level : Level}
      {options : Options} {verdict : Verdict} : Becomes store later →
      subject.verdict env level later options = .ok (verdict, last) → Becomes store last

namespace Store

variable {base store later last : Store}

theorem Follows.of_cells_eq (follows : later.Follows base) (sameCells : last.cells = later.cells)
    (sameNext : last.nextVar = later.nextVar) : last.Follows base := by
  obtain ⟨_, _, _, _⟩ := later
  obtain ⟨_, _, _, _⟩ := last
  cases sameCells
  cases sameNext
  exact ⟨follows.bounded, follows.nextVar_le, follows.kept, follows.size_le, follows.linkedSize_le⟩

theorem close_cells {choose : FreeVar → Bool} {type : Ty MetaVar} {scheme : Scheme}
    (closes : later.close choose type = .ok (scheme, last)) :
    last.cells = later.cells ∧ last.nextVar = later.nextVar := by
  rw [close] at closes
  obtain ⟨_, _, closes⟩ := ok_of_bind closes
  cases closes
  exact ⟨rfl, rfl⟩

end Store

namespace Match

variable {subject : Match} {env : Environment} {level : Level} {store grown : Store}
  {options : Options} {verdict : Verdict}

theorem cover_of_verdict (runs : subject.verdict env level store options = .ok (verdict, grown)) :
    ∃ rows findings, Row.ofBranches 0 subject.branches = .ok rows ∧
      cover env level store rows [subject.scrutinee] = .ok (findings, grown) ∧
      verdict = .ofFindings subject.span options subject.branches.length findings := by
  rw [Match.verdict, Match.findings] at runs
  obtain ⟨⟨findings, last⟩, found, runs⟩ := ok_of_bind runs
  obtain ⟨rows, made, covers⟩ := ok_of_bind found
  cases runs
  exact ⟨rows, findings, made, covers, rfl⟩

theorem verdict_mints (runs : subject.verdict env level store options = .ok (verdict, grown)) :
    store.HasMinted grown := by
  obtain ⟨rows, findings, _, covers, _⟩ := cover_of_verdict runs
  exact cover_mints store grown rows [subject.scrutinee] findings covers

end Match

theorem Store.Becomes.follows {base store later : Store} (becomes : store.Becomes later)
    (follows : store.Follows base) : later.Follows base := by
  induction becomes with
  | now => exact follows
  | newVar kind quantification level _ inductionHypothesis =>
      exact inductionHypothesis.mints (.one kind quantification level .none)
  | newBound _ inductionHypothesis => exact inductionHypothesis.of_cells_eq rfl rfl
  | @instantiate later level quantification scheme _ inductionHypothesis =>
      exact inductionHypothesis.mints (later.instantiateWith_mints level quantification [] scheme)
  | generalize _ generalizes inductionHypothesis =>
      obtain ⟨sameCells, sameNext⟩ := close_cells generalizes
      exact inductionHypothesis.of_cells_eq sameCells sameNext
  | verdict _ runs inductionHypothesis =>
      obtain ⟨_, mints⟩ := Match.verdict_mints runs
      exact inductionHypothesis.mints mints

namespace Match

variable {subject : Match} {env : Environment} {level : Level} {store grown : Store}
  {options : Options} {verdict : Verdict}

/-- A check that succeeds leaves all cells as they were, links nothing and mints free variables only.
After whatever has been minted, instantiated, generalised and checked since, it succeeds again with the
same verdict, at any level. -/
theorem verdict_again (bounded : store.Bounded) (typeOwned : store.Owns subject.scrutinee.leaves)
    (envOwned : env.OwnedBy store)
    (runs : subject.verdict env level store options = .ok (verdict, grown)) :
    (∃ count, store.Mints count grown) ∧
      (∀ v cell, store.cells.get? v = some cell → grown.cells.get? v = some cell) ∧
      (∀ v target, grown.cells.get? v = some (.linked target) →
        store.cells.get? v = some (.linked target)) ∧
      grown.nextCon = store.nextCon ∧ grown.nextBound = store.nextBound ∧
      ∀ later, grown.Becomes later → ∀ otherLevel, ∃ last,
        subject.verdict env otherLevel later options = .ok (verdict, last) := by
  obtain ⟨count, mints⟩ := verdict_mints runs
  have extension := mints.extension
  refine ⟨⟨count, mints⟩, ?_, fun _ _ stored => extension.linked stored, extension.nextCon_eq,
    extension.nextBound_eq, ?_⟩
  · intro v cell stored
    rw [extension.kept v (bounded v (by simp [stored])), stored]
  · intro later becomes otherLevel
    have twins := (becomes.follows ((Store.Follows.refl bounded).mints mints)).twins bounded
    obtain ⟨rows, findings, made, covers, rfl⟩ := cover_of_verdict runs
    obtain ⟨_, last, _, again, _, _, rfl⟩ := cover_mirrors envOwned otherLevel rows _ _ twins
      (.cons (.of_owns typeOwned) .nil) covers
    refine ⟨last, ?_⟩
    rw [Match.verdict, Match.findings, made]
    simp only [bind, Except.bind, again]
    rfl

/-- Queues are checked once more after a variable and a bound variable have been minted, one level deeper,
and the verdict is the same. -/
theorem linkedMatch_again :
    ∃ verdict grown last,
      linkedMatch.verdict queueDeclarations.toEnvironment .bottom linkedStore {}
        = .ok (verdict, grown) ∧
      linkedMatch.verdict queueDeclarations.toEnvironment Level.bottom.succ
        (grown.newVar .any .allowed .bottom).2.newBound.2 {} = .ok (verdict, last) := by
  have wellTyped := linkedMatch_wellTyped
  have bounded : linkedStore.Bounded := by
    intro v known
    obtain ⟨cell, stored⟩ := Option.isSome_iff_exists.mp known
    have low : ∀ entry ∈ linkedStore.cells.entries, entry.1.number < linkedStore.nextVar := by decide
    exact low _ (Store.mem_entries_of_get? stored)
  obtain ⟨⟨verdict, grown⟩, runs⟩ := wellTyped.verdict_ok .bottom {}
  obtain ⟨_, _, _, _, _, again⟩ :=
    verdict_again bounded wellTyped.typeOwned wellTyped.envOwned runs
  obtain ⟨last, runsAgain⟩ :=
    again _ (.newBound (.newVar .any .allowed .bottom .now)) Level.bottom.succ
  exact ⟨verdict, grown, last, runs, runsAgain⟩

end Match

end TypedMatch
