import TypedMatch.Proofs.Coverage.Distinct
import TypedMatch.Proofs.Coverage.Mimicry
import TypedMatch.Proofs.Environment.Unification
import TypedMatch.Proofs.Match.History

/-!
# Verdicts under later links

A verdict that has been given while some variables were still free stays as it is when these variables are
linked later.  Where a slot is of a type of which nothing is known, no branch asks anything of it, so links
cannot change which branches are in question.  All they can do is to make the payload of a constructor
unit, and then witnesses show the constructor without a payload.
-/

set_option autoImplicit false

namespace TypedMatch

namespace Match

variable {subject : Match} {env : Environment} {store grown solved : Store} {level : Level}
  {options : Options} {verdict : Verdict}

theorem finds_of_verdict (acyclic : store.Acyclic) (envOwned : env.OwnedBy store)
    (typeOwned : store.Owns subject.scrutinee.leaves)
    (runs : subject.verdict env level store options = .ok (verdict, grown)) :
    ∃ rows findings, Row.ofBranches 0 subject.branches = .ok rows ∧
      (env.outline store).Finds rows [store.outline subject.scrutinee] findings ∧
      verdict = .ofFindings subject.span options subject.branches.length findings := by
  obtain ⟨rows, findings, made, covers, same⟩ := cover_of_verdict runs
  have decides := cover_decides acyclic envOwned level store (.refl store) rows [subject.scrutinee]
    (List.forall_mem_singleton.mpr typeOwned)
  rw [covers] at decides
  rcases decides with ⟨_, _, succeeds, _, found⟩ | ⟨_, _, fails⟩
  · cases succeeds
    exact ⟨rows, findings, made, found, same⟩
  · cases fails

theorem verdict_of_finds (acyclic : store.Acyclic) (envOwned : env.OwnedBy store)
    (typeOwned : store.Owns subject.scrutinee.leaves) {rows : List Row} {findings : Findings}
    (made : Row.ofBranches 0 subject.branches = .ok rows)
    (found : (env.outline store).Finds rows [store.outline subject.scrutinee] findings)
    (level : Level) (options : Options) :
    ∃ grown, subject.verdict env level store options
      = .ok (.ofFindings subject.span options subject.branches.length findings, grown) := by
  have decides := cover_decides acyclic envOwned level store (.refl store) rows [subject.scrutinee]
    (List.forall_mem_singleton.mpr typeOwned)
  rcases decides with ⟨others, grown, covers, _, otherFound⟩ | ⟨nothing, _⟩
  · refine ⟨grown, ?_⟩
    rw [Match.verdict, Match.findings, made]
    simp only [bind, Except.bind, covers]
    rw [found.unique otherFound]
    rfl
  · exact absurd found (nothing findings)

/-- A check that succeeds succeeds again once free variables have been linked to known types, with the same
branches and as many witnesses.  A witness may only have lost, in a constructor whose payload is unit now, a
payload of which nothing was known. -/
theorem verdict_unified {declarations : Declarations} (built : declarations.Built)
    (acyclic : store.Acyclic) (typeOwned : store.Owns subject.scrutinee.leaves)
    (envOwned : declarations.toEnvironment.OwnedBy store)
    (runs : subject.verdict declarations.toEnvironment level store options = .ok (verdict, grown))
    (unifies : grown.Unifies solved) (solvedAcyclic : solved.Acyclic) (otherLevel : Level) :
    ∃ other last,
      subject.verdict declarations.toEnvironment otherLevel solved options = .ok (other, last) ∧
        other.selected = verdict.selected ∧ other.unselected = verdict.unselected ∧
        other.isExhaustive = verdict.isExhaustive ∧ other.needsGuards = verdict.needsGuards ∧
        verdict.unmatched.Sharpens (declarations.toEnvironment.outline solved)
          (solved.outline subject.scrutinee) other.unmatched ∧
        verdict.guardedOnly.Sharpens (declarations.toEnvironment.outline solved)
          (solved.outline subject.scrutinee) other.guardedOnly := by
  obtain ⟨_, mints⟩ := verdict_mints runs
  have growth := mints.extension
  have refined : store.RefinedBy solved := by
    intro v owned
    rw [← Store.outlineOf_of_extends acyclic growth owned]
    exact unifies.refines_outlineOf (growth.acyclic acyclic) solvedAcyclic (growth.owns owned)
  obtain ⟨rows, findings, made, found, rfl⟩ := finds_of_verdict acyclic envOwned typeOwned runs
  obtain ⟨others, again, sharpens⟩ := found.mimic (Environment.mimics_outline envOwned refined)
    (.cons (refined.refines_outline typeOwned) .nil)
  have solvedOwned : declarations.toEnvironment.OwnedBy solved :=
    { bodies := fun isBody => unifies.owns (growth.owns (envOwned.bodies isBody))
      payloads := fun listed constructor among =>
        unifies.owns (growth.owns (envOwned.payloads listed constructor among)) }
  obtain ⟨last, succeeds⟩ := verdict_of_finds solvedAcyclic solvedOwned
    (unifies.owns (growth.owns typeOwned)) made again otherLevel options
  have distinct : declarations.toEnvironment.Distinct := built.nodup_names
  have listings (kind : HoleKind) :
      (Listing.ofWitnesses options.witnessLimit (Verdict.witnessesOf kind findings)).Sharpens
        (declarations.toEnvironment.outline solved) (solved.outline subject.scrutinee)
        (.ofWitnesses options.witnessLimit (Verdict.witnessesOf kind others)) :=
    Listing.sharpens_ofWitnesses (found.nodup_witnessesOf (distinct.outline store) kind)
      (again.nodup_witnessesOf (distinct.outline solved) kind) (sharpens.witnessesOf kind)
  refine ⟨_, last, succeeds, ?_, ?_, ?_, ?_, listings .unmatched, listings .guardedOnly⟩
  · rw [Verdict.ofFindings, Verdict.ofFindings, sharpens.sameReached]
  · rw [Verdict.ofFindings, Verdict.ofFindings, sharpens.sameReached]
  · exact (listings .unmatched).isEmpty_eq.symm
  · exact congrArg (!·) (listings .guardedOnly).isEmpty_eq.symm

/-! ## A value that may be there -/

def maybeCon : TyCon := ⟨0, "maybe"⟩

def maybeDeclarations : Declarations where
  types := ⟨[(0, .variant [⟨0⟩] [("Nothing", .unit), ("Just", .var (.bound ⟨0⟩))])]⟩
  owners := ⟨[("Just", maybeCon), ("Nothing", maybeCon)]⟩

theorem maybeDeclarations_built : maybeDeclarations.Built := by
  have declared : (Declarations.empty.addVariant .empty "maybe" 1).2.1.Built :=
    .addVariant .empty "maybe" 1 .empty
  have extended : (Declarations.mk ⟨[(0, .variant [⟨0⟩] [("Nothing", .unit)])]⟩
      ⟨[("Nothing", maybeCon)]⟩).Built :=
    .extend declared (rfl : Declarations.extend _ maybeCon "Nothing" .unit = .ok _)
  exact .extend extended
    (rfl : Declarations.extend _ maybeCon "Just" (.var (.bound ⟨0⟩)) = .ok _)

def openStore : Store where
  nextCon := 1
  nextVar := 1
  nextBound := 1
  cells := ⟨[(⟨0⟩, .free ⟨⟨0⟩, .any, .allowed, .bottom⟩)]⟩

def openMatch : Match where
  scrutinee := .data maybeCon [.var ⟨0⟩]
  branches := [⟨.constant "Nothing", false⟩]
  span := ⟨0, 20⟩

/-- The missing case has an argument as long as nothing is known of it, and none once it is unit. -/
theorem openMatch_unified :
    ∃ verdict other grown last,
      openMatch.verdict maybeDeclarations.toEnvironment .bottom openStore {} = .ok (verdict, grown) ∧
      openMatch.verdict maybeDeclarations.toEnvironment .bottom (openStore.link ⟨0⟩ .unit) {}
        = .ok (other, last) ∧
      verdict.unmatched.kept = [.applied "Just" .wildcard] ∧ other.unmatched.kept = [.constant "Just"] ∧
      other.selected = verdict.selected := by
  have closed : openStore.Closed := by decide
  have acyclic : openStore.Acyclic := Store.acyclic_of_entries (fun _ => 0) (by decide)
  have linkedAcyclic : (openStore.link ⟨0⟩ .unit).Acyclic :=
    Store.acyclic_of_entries (fun _ => 0) (by decide)
  have first : openMatch.verdict maybeDeclarations.toEnvironment .bottom openStore {}
      = .ok (⟨⟨0, 20⟩, ⟨[.applied "Just" .wildcard], 0⟩, ⟨[], 0⟩, [0], []⟩, openStore) := by
    cbv
  have second : (openMatch.verdict maybeDeclarations.toEnvironment .bottom
      (openStore.link ⟨0⟩ .unit) {}).map (fun result => result.1.unmatched.kept)
        = .ok [.constant "Just"] := by
    cbv
  have unifies : openStore.Unifies (openStore.link ⟨0⟩ .unit) := .link .now rfl Store.owns_nil
  obtain ⟨other, last, again, sameSelected, _⟩ := verdict_unified maybeDeclarations_built acyclic
    (closed.owns (by decide)) (Declarations.ownedBy_of_closed closed (by decide)) first unifies
    linkedAcyclic .bottom
  rw [again] at second
  exact ⟨_, other, openStore, last, first, again, rfl, Except.ok.inj second, sameSelected⟩

end Match

end TypedMatch
