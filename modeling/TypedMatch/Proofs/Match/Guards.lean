import TypedMatch.Proofs.Coverage.Guards
import TypedMatch.Proofs.Match.Selection

/-!
# What guards change

Giving a guard to more branches of a match leaves alone what no branch matches.  It can only add values
that guarded branches alone match, in the order in which they would be found anyway, and branches that are
selected.  Whether the check succeeds, and the store that it leaves, do not depend on guards at all.  This
holds for any store and any declarations, whether the match is well typed or not.
-/

set_option autoImplicit false

namespace TypedMatch

/-- Whether the second branch is the first one, or the first one with a guard. -/
structure Branch.AddsGuard (branch other : Branch) : Prop where
  samePattern : branch.pattern = other.pattern
  keepsGuard : branch.guarded = true → other.guarded = true

def guardsOf (branches : List Branch) (index : Nat) : Bool :=
  branches[index]?.any Branch.guarded

/-- The witnesses of holes of one kind, without repetitions. -/
def Findings.gaps (kind : HoleKind) (findings : Findings) : List Witness :=
  (Verdict.witnessesOf kind findings).eraseDups

section Rows

variable {branches others : List Branch}

theorem guardsOf_le (adds : List.Forall₂ Branch.AddsGuard branches others) (index : Nat)
    (guarded : guardsOf branches index = true) : guardsOf others index = true := by
  induction adds generalizing index with
  | nil => exact guarded
  | cons first _ inductionHypothesis =>
      cases index with
      | zero => exact first.keepsGuard guarded
      | succ index => exact inductionHypothesis index guarded

theorem Row.ofBranches_of_patterns {guards : Nat → Bool}
    (same : List.Forall₂ (fun branch other : Branch => branch.pattern = other.pattern) branches others)
    (index : Nat) (read : ∀ offset branch, others[offset]? = some branch →
      guards (index + offset) = branch.guarded) :
    ofBranches index others = (ofBranches index branches).map (List.map (Row.regard guards)) := by
  induction same generalizing index with
  | nil => rfl
  | @cons branch other branches others samePattern _ inductionHypothesis =>
      have restSame := inductionHypothesis (index + 1) fun offset later found => by
        rw [Nat.add_assoc, Nat.add_comm 1]
        exact read (offset + 1) later found
      have guarded := read 0 other rfl
      rw [ofBranches, ofBranches, samePattern, restSame]
      cases Shape.ofPattern other.pattern with
      | error fault => rfl
      | ok shape =>
          cases ofBranches (index + 1) branches with
          | error fault => rfl
          | ok rows =>
              simp only [bind, Except.bind, Except.map, pure, Except.pure, List.map_cons, Row.regard]
              rw [← guarded]
              rfl

theorem Row.ofBranches_guardsOf
    (same : List.Forall₂ (fun branch other : Branch => branch.pattern = other.pattern) branches others) :
    ofBranches 0 others
      = (ofBranches 0 branches).map (List.map (Row.regard (guardsOf others))) := by
  refine ofBranches_of_patterns same 0 ?_
  intro offset branch found
  rw [Nat.zero_add, guardsOf, found, Option.any_some]

end Rows

/-! ## Leaves with more guards -/

section Leaves

variable {guards more : Nat → Bool} {rows : List Row} {leaves : List Leaf}

theorem HoleKind.ofRows_regard_eq_unmatched :
    ofRows (rows.map (.regard guards)) = some .unmatched ↔ rows = [] := by
  rw [ofRows_eq_unmatched, List.map_eq_nil_iff]

theorem HoleKind.ofRows_regard_mono (adds : ∀ index, guards index = true → more index = true)
    (isGap : ofRows (rows.map (.regard guards)) = some .guardedOnly) :
    ofRows (rows.map (.regard more)) = some .guardedOnly := by
  rw [ofRows_eq_guardedOnly, List.forall_mem_map] at isGap ⊢
  refine ⟨by simpa using isGap.1, ?_⟩
  exact fun row among => adds row.branch (isGap.2 row among)

theorem Findings.reached_regard_mono (adds : ∀ index, guards index = true → more index = true)
    {index : Nat} (reached : index ∈ (ofRows (rows.map (.regard guards))).reached) :
    index ∈ (ofRows (rows.map (.regard more))).reached := by
  rw [mem_reached_ofRows] at reached ⊢
  obtain ⟨_, _, _, split, guarded, rfl⟩ := reached
  obtain ⟨before, rest, rfl, rfl, isRest⟩ := List.map_eq_append_iff.mp split
  obtain ⟨row, after, rfl, rfl, rfl⟩ := List.map_eq_cons_iff.mp isRest
  refine ⟨before.map (.regard more), row.regard more, after.map (.regard more), ?_, ?_, rfl⟩
  · rw [List.map_append, List.map_cons]
  · rw [List.forall_mem_map] at guarded ⊢
    exact fun earlier among => adds earlier.branch (guarded earlier among)

theorem eraseDups_filter {Item : Type} [BEq Item] [LawfulBEq Item] (keep : Item → Bool)
    (items : List Item) : (items.filter keep).eraseDups = items.eraseDups.filter keep := by
  match items with
  | [] => rfl
  | item :: rest =>
      have inner := eraseDups_filter keep (rest.filter fun other => !other == item)
      rw [List.eraseDups_cons, List.filter_cons, List.filter_cons, ← inner]
      by_cases kept : keep item = true
      · rw [if_pos kept, if_pos kept, List.eraseDups_cons, List.filter_filter, List.filter_filter]
        simp only [Bool.and_comm]
      · rw [if_neg kept, if_neg kept]
        congr 1
        rw [List.filter_filter]
        refine List.filter_congr ?_
        intro other _
        by_cases same : other = item
        · subst same
          simpa using kept
        · simp [same]
termination_by items.length
decreasing_by
  exact Nat.lt_succ_of_le (List.length_filter_le _ _)

theorem gaps_ofLeaves (ends : ∀ leaf ∈ leaves, leaf.EndsAt rows 1) (guards : Nat → Bool)
    (kind : HoleKind) :
    (Findings.ofLeaves (leaves.map (.regard guards))).gaps kind
      = ((leaves.filterMap fun leaf => leaf.witnesses.head?).eraseDups).filter fun witness =>
          HoleKind.ofRows ((rowsBehind rows [witness]).map (.regard guards)) = some kind := by
  rw [Findings.gaps, witnessesOf_ofLeaves, ← eraseDups_filter, List.filterMap_map,
    List.filter_filterMap]
  congr 1
  refine List.filterMap_congr ?_
  intro leaf among
  obtain ⟨complete, rowsEq⟩ := ends leaf among
  obtain ⟨witness, isWitness⟩ := List.length_eq_one_iff.mp complete
  rw [isWitness] at rowsEq
  simp only [Function.comp, Leaf.gap?, Leaf.regard, isWitness, rowsEq, List.head?_cons]
  rw [Option.filter_some]
  simp

end Leaves

namespace Match

variable {subject other : Match}

theorem findings_guards (sameType : subject.scrutinee = other.scrutinee)
    (adds : List.Forall₂ Branch.AddsGuard subject.branches other.branches) (env : Environment)
    (level : Level) (store : Store) :
    (∃ fault, subject.findings env level store = .error fault ∧
      other.findings env level store = .error fault) ∨
    ∃ (rows : List Row) (leaves : List Leaf) (grown : Store),
      (∀ leaf ∈ leaves, leaf.EndsAt rows 1) ∧
      subject.findings env level store
        = .ok (.ofLeaves (leaves.map (.regard (guardsOf subject.branches))), grown) ∧
      other.findings env level store
        = .ok (.ofLeaves (leaves.map (.regard (guardsOf other.branches))), grown) := by
  have samePatterns := adds.imp fun _ _ added => added.samePattern
  have subjectRows := Row.ofBranches_guardsOf
    (List.forall₂_same.mpr fun branch (_ : branch ∈ subject.branches) => rfl)
  have otherRows := Row.ofBranches_guardsOf samePatterns
  rw [findings, findings, ← sameType, otherRows]
  cases made : Row.ofBranches 0 subject.branches with
  | error fault => exact .inl ⟨fault, rfl, rfl⟩
  | ok rows =>
      rw [made] at subjectRows
      have rowsEq : rows = rows.map (.regard (guardsOf subject.branches)) := Except.ok.inj subjectRows
      obtain ⟨outcome, isOutcome⟩ := exists_outcome env level store rows [subject.scrutinee]
      have runs := isOutcome.runs (guardsOf subject.branches)
      have otherRuns := isOutcome.runs (guardsOf other.branches)
      rw [← rowsEq] at runs
      cases outcome with
      | error fault => exact .inl ⟨fault, runs, otherRuns⟩
      | ok found => exact .inr ⟨rows, found.1, found.2, isOutcome.ends found rfl, runs, otherRuns⟩

/-- With guards on more of its branches a match fails to check as before, or its check succeeds as before
and leaves the same store.  Then the values that no branch matches are listed as before, those that guarded
branches alone match are listed again, in the same order and maybe with others among them, and the branches
that are selected are selected again. -/
theorem verdict_guards (sameType : subject.scrutinee = other.scrutinee)
    (adds : List.Forall₂ Branch.AddsGuard subject.branches other.branches) (env : Environment)
    (level : Level) (store : Store) (options : Options) :
    (∃ fault, subject.verdict env level store options = .error fault ∧
      other.verdict env level store options = .error fault) ∨
    ∃ found more verdict others grown,
      subject.findings env level store = .ok (found, grown) ∧
      other.findings env level store = .ok (more, grown) ∧
      subject.verdict env level store options = .ok (verdict, grown) ∧
      other.verdict env level store options = .ok (others, grown) ∧
      verdict.unmatched = others.unmatched ∧
      (found.gaps .guardedOnly).Sublist (more.gaps .guardedOnly) ∧
      verdict.guardedOnly.kept = (found.gaps .guardedOnly).take options.witnessLimit ∧
      verdict.guardedOnly.omitted = (found.gaps .guardedOnly).length - options.witnessLimit ∧
      others.guardedOnly.kept = (more.gaps .guardedOnly).take options.witnessLimit ∧
      others.guardedOnly.omitted = (more.gaps .guardedOnly).length - options.witnessLimit ∧
      ∀ index ∈ verdict.selected, index ∈ others.selected := by
  rw [verdict, verdict]
  rcases findings_guards sameType adds env level store with
    ⟨fault, fails, otherFails⟩ | ⟨rows, leaves, grown, ends, runs, otherRuns⟩
  · rw [fails, otherFails]
    exact .inl ⟨fault, rfl, rfl⟩
  · rw [runs, otherRuns]
    have moreGuarded := guardsOf_le adds
    refine .inr ⟨_, _, _, _, grown, rfl, rfl, rfl, rfl, ?_, ?_, rfl, rfl, rfl, rfl, ?_⟩
    · have sameGaps :
          (Findings.ofLeaves (leaves.map (.regard (guardsOf subject.branches)))).gaps .unmatched
            = (Findings.ofLeaves (leaves.map (.regard (guardsOf other.branches)))).gaps .unmatched := by
        simp only [gaps_ofLeaves ends, HoleKind.ofRows_regard_eq_unmatched]
      exact congrArg (fun gaps : List Witness =>
        Listing.mk (gaps.take options.witnessLimit) (gaps.length - options.witnessLimit)) sameGaps
    · rw [gaps_ofLeaves ends, gaps_ofLeaves ends]
      refine List.monotone_filter_right _ fun witness isGap => ?_
      rw [decide_eq_true_iff] at isGap ⊢
      exact HoleKind.ofRows_regard_mono moreGuarded isGap
    · intro index selected
      obtain ⟨inRange, reached⟩ := mem_selected_iff.mp selected
      obtain ⟨_, among, reachedAt⟩ := mem_reached_ofLeaves.mp reached
      obtain ⟨leaf, inLeaves, rfl⟩ := List.mem_map.mp among
      refine mem_selected_iff.mpr ⟨adds.length_eq ▸ inRange, mem_reached_ofLeaves.mpr ?_⟩
      exact ⟨leaf.regard (guardsOf other.branches), List.mem_map_of_mem inLeaves,
        Findings.reached_regard_mono moreGuarded reachedAt⟩

def guardedQueueMatch : Match :=
  { queueMatch with
    branches := queueMatch.branches.map fun branch => { branch with guarded := true } }

/-- One queue is reported because of the guard that there is, and three more because of the others. -/
theorem guardedQueueMatch_gaps :
    ∃ found more grown, queueMatch.findings queueEnvironment .bottom .empty = .ok (found, grown) ∧
      guardedQueueMatch.findings queueEnvironment .bottom .empty = .ok (more, grown) ∧
      (found.gaps .guardedOnly).Sublist (more.gaps .guardedOnly) ∧
      (found.gaps .guardedOnly).length = 1 ∧ (more.gaps .guardedOnly).length = 4 := by
  have sameType : queueMatch.scrutinee = guardedQueueMatch.scrutinee := rfl
  have adds : List.Forall₂ Branch.AddsGuard queueMatch.branches guardedQueueMatch.branches :=
    List.forall₂_map_right_iff.mpr (List.forall₂_same.mpr fun _ _ => ⟨rfl, fun _ => rfl⟩)
  have gaps : (queueMatch.findings queueEnvironment .bottom .empty).map (fun result =>
      (result.1.gaps .guardedOnly).length) = .ok 1 := by
    cbv
  have moreGaps : (guardedQueueMatch.findings queueEnvironment .bottom .empty).map (fun result =>
      (result.1.gaps .guardedOnly).length) = .ok 4 := by
    cbv
  rcases verdict_guards sameType adds queueEnvironment .bottom .empty {} with
    ⟨fault, fails, _⟩ | ⟨found, more, verdict, _, grown, runs, otherRuns, _, _, _, among, _⟩
  · obtain ⟨_, _, succeeds, _⟩ := queueMatch_wellFormed.exists_leaves .bottom
    rw [Match.verdict, succeeds] at fails
    cases fails
  · rw [runs] at gaps
    rw [otherRuns] at moreGaps
    exact ⟨found, more, grown, runs, otherRuns, among, Except.ok.inj gaps, Except.ok.inj moreGaps⟩

end Match

end TypedMatch
