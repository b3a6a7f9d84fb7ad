import TypedMatch.Proofs.Match.Partition

/-!
# Witnesses are true and miss nothing

Every witness that a verdict lists is a sketch of values of the matched type, and all these values fail
to be handled in the way that the witness is listed for.  The other way round, if the limit lets all
witnesses in, every value that is not handled is covered by one of them, up to integers and strings
that the patterns do not tell apart.  No value is covered by two witnesses, so none is listed twice
and nothing is lost when repetitions are removed.
-/

set_option autoImplicit false

namespace TypedMatch

mutual

theorem Witness.exists_covers : ∀ witness : Witness, ∃ value, witness.covers value = true
  | .wildcard => ⟨.unit, rfl⟩
  | .unit => ⟨.unit, rfl⟩
  | .bool value => ⟨.bool value, beq_self_eq_true value⟩
  | .int value => ⟨.int value, beq_self_eq_true value⟩
  | .str value => ⟨.str value, beq_self_eq_true value⟩
  | .nil => ⟨.nil, rfl⟩
  | .cons head tail => by
      obtain ⟨first, headCovers⟩ := head.exists_covers
      obtain ⟨rest, tailCovers⟩ := tail.exists_covers
      exact ⟨.cons first rest, by rw [covers, headCovers, tailCovers, Bool.and_self]⟩
  | .tuple components => by
      obtain ⟨values, covers⟩ := Witness.exists_coversList components
      exact ⟨.tuple values, covers⟩
  | .constant name => ⟨.ctor name .unit, beq_self_eq_true name⟩
  | .applied name payload => by
      obtain ⟨value, payloadCovers⟩ := payload.exists_covers
      exact ⟨.ctor name value, by rw [covers, payloadCovers, beq_self_eq_true, Bool.and_self]⟩

theorem Witness.exists_coversList : ∀ witnesses : List Witness,
    ∃ values, coversList witnesses values = true
  | [] => ⟨[], rfl⟩
  | witness :: rest => by
      obtain ⟨value, covers⟩ := witness.exists_covers
      obtain ⟨values, restCover⟩ := Witness.exists_coversList rest
      exact ⟨value :: values, by rw [coversList, covers, restCover, Bool.and_self]⟩

end

def Witness.Apart (witness other : Witness) : Prop :=
  ∀ value, witness.covers value = true → other.covers value = false

theorem nodup_of_pairwise_apart {witnesses : List Witness}
    (apart : witnesses.Pairwise Witness.Apart) : witnesses.Nodup := by
  apply apart.imp
  rintro witness _ isApart rfl
  obtain ⟨value, covers⟩ := witness.exists_covers
  exact Bool.noConfusion (covers.symm.trans (isApart value covers))

namespace Match

variable {subject : Match} {env : Environment} {store : Store} {leaves : List Leaf} {leaf : Leaf}
  {kind : HoleKind} {witness : Witness}

namespace SplitBy

theorem gap?_eq_some (splitBy : subject.SplitBy env store leaves) (among : leaf ∈ leaves)
    (isGap : leaf.gap? kind = some witness) : HoleKind.ofRows leaf.rows = some kind ∧
      leaf.witnesses = [witness] ∧
      witness.Sketches (env.outline store) (store.outline subject.scrutinee) := by
  obtain ⟨first, single, sketches⟩ := splitBy.single leaf among
  rw [Leaf.gap?, Option.ite_none_right_eq_some, single] at isGap
  obtain ⟨isKind, same⟩ := isGap
  cases same
  exact ⟨isKind, single, sketches⟩

theorem covers_iff (single : leaf.witnesses = [witness]) (value : Value) :
    leaf.Covers [value] ↔ witness.covers value = true := by
  rw [Leaf.Covers, single, Witness.coversList, Witness.coversList, Bool.and_true]

theorem sound_of_mem (splitBy : subject.SplitBy env store leaves)
    (listed : witness ∈ Verdict.witnessesOf kind (.ofLeaves leaves)) :
    witness.Sketches (env.outline store) (store.outline subject.scrutinee) ∧
      ∀ value, subject.Scrutinizes env store value → witness.covers value = true →
        HoleKind.ofRows ((subject.accepting value).map Row.ofEntry) = some kind := by
  rw [witnessesOf_ofLeaves, List.mem_filterMap] at listed
  obtain ⟨leaf, among, isGap⟩ := listed
  obtain ⟨isKind, single, sketches⟩ := splitBy.gap?_eq_some among isGap
  refine ⟨sketches, ?_⟩
  intro value scrutinized covers
  rw [← splitBy.exact leaf among value scrutinized ((covers_iff single value).mpr covers)]
  exact isKind

/-- A value that fails to be handled differs in literals only from one that a witness covers, and the
same branches accept both. -/
theorem exists_witness (splitBy : subject.SplitBy env store leaves) {value : Value}
    (scrutinized : subject.Scrutinizes env store value)
    (isKind : HoleKind.ofRows ((subject.accepting value).map Row.ofEntry) = some kind) :
    ∃ witness ∈ Verdict.witnessesOf kind (.ofLeaves leaves), ∃ other,
      subject.Scrutinizes env store other ∧ value.Similar other ∧ witness.covers other = true ∧
        ∀ branch ∈ subject.branches,
          branch.pattern.accepts value = branch.pattern.accepts other := by
  obtain ⟨leaf, among, other, otherScrutinized, similar, covers, same⟩ :=
    splitBy.complete value scrutinized
  obtain ⟨witness, single, _⟩ := splitBy.single leaf among
  have rowsEq := splitBy.exact leaf among other otherScrutinized covers
  refine ⟨witness, ?_, other, otherScrutinized, similar, (covers_iff single other).mp covers,
    accepts_eq_of_accepting_eq same⟩
  rw [witnessesOf_ofLeaves, List.mem_filterMap]
  refine ⟨leaf, among, ?_⟩
  rw [Leaf.gap?, rowsEq, ← same, if_pos isKind, single]
  rfl

theorem pairwise_apart (splitBy : subject.SplitBy env store leaves) :
    (Verdict.witnessesOf .unmatched (.ofLeaves leaves)
      ++ Verdict.witnessesOf .guardedOnly (.ofLeaves leaves)).Pairwise Witness.Apart := by
  have apart : ∀ {leaf other : Leaf} {kind otherKind : HoleKind} {witness otherWitness : Witness},
      leaf ∈ leaves → other ∈ leaves → leaf.gap? kind = some witness →
      other.gap? otherKind = some otherWitness →
      (∀ values, leaf.Covers values → ¬ other.Covers values) → witness.Apart otherWitness := by
    intro leaf other kind otherKind witness otherWitness among otherAmong isGap otherIsGap disjoint
      value covers
    obtain ⟨_, single, _⟩ := splitBy.gap?_eq_some among isGap
    obtain ⟨_, otherSingle, _⟩ := splitBy.gap?_eq_some otherAmong otherIsGap
    have notCovered := disjoint [value] ((covers_iff single value).mpr covers)
    rw [covers_iff otherSingle] at notCovered
    simpa using notCovered
  have within : ∀ kind, (Verdict.witnessesOf kind (.ofLeaves leaves)).Pairwise Witness.Apart := by
    intro kind
    rw [witnessesOf_ofLeaves, List.pairwise_filterMap]
    refine List.Pairwise.imp_of_mem ?_ splitBy.disjoint
    intro leaf other among otherAmong disjoint witness isGap otherWitness otherIsGap
    exact apart among otherAmong isGap otherIsGap disjoint
  refine List.pairwise_append.mpr ⟨within .unmatched, within .guardedOnly, ?_⟩
  intro witness listed otherWitness otherListed
  rw [witnessesOf_ofLeaves, List.mem_filterMap] at listed otherListed
  obtain ⟨leaf, among, isGap⟩ := listed
  obtain ⟨other, otherAmong, otherIsGap⟩ := otherListed
  have different : leaf ≠ other := by
    rintro rfl
    have isUnmatched := (splitBy.gap?_eq_some among isGap).1
    have isGuardedOnly := (splitBy.gap?_eq_some otherAmong otherIsGap).1
    cases isUnmatched.symm.trans isGuardedOnly
  have symmetric : Std.Symm fun leaf other : Leaf =>
      ∀ values, leaf.Covers values → ¬ other.Covers values :=
    ⟨fun _ _ disjoint values otherCovers covers => disjoint values covers otherCovers⟩
  exact apart among otherAmong isGap otherIsGap
    (splitBy.disjoint.forall among otherAmong different)

end SplitBy

/-- The witnesses of a well-formed match are true: they are sketches of values of the type, those for
unmatched values cover only values that no branch accepts, and the others only values that some
guarded branch and no other accepts. -/
theorem verdict_witnesses_true (wellFormed : subject.WellFormed env store) (level : Level)
    (options : Options) :
    ∃ verdict grown, subject.verdict env level store options = .ok (verdict, grown) ∧
      (∀ witness ∈ verdict.unmatched.kept,
        witness.Sketches (env.outline store) (store.outline subject.scrutinee) ∧
        ∀ value, subject.Scrutinizes env store value → witness.covers value = true →
          ∀ branch ∈ subject.branches, branch.pattern.accepts value = false) ∧
      (∀ witness ∈ verdict.guardedOnly.kept,
        witness.Sketches (env.outline store) (store.outline subject.scrutinee) ∧
        ∀ value, subject.Scrutinizes env store value → witness.covers value = true →
          (∃ branch ∈ subject.branches,
            branch.guarded = true ∧ branch.pattern.accepts value = true) ∧
          ∀ branch ∈ subject.branches, branch.guarded = false →
            branch.pattern.accepts value = false) := by
  obtain ⟨leaves, grown, runs, splitBy⟩ := wellFormed.exists_leaves level
  refine ⟨.ofFindings subject.span options subject.branches.length (.ofLeaves leaves), grown, ?_, ?_,
    ?_⟩
  · rw [verdict, runs]
    rfl
  · intro witness listed
    obtain ⟨sketches, isTrue⟩ := splitBy.sound_of_mem (Listing.mem_of_mem_kept listed)
    refine ⟨sketches, ?_⟩
    intro value scrutinized covers
    exact ofRows_accepting_eq_unmatched.mp (isTrue value scrutinized covers)
  · intro witness listed
    obtain ⟨sketches, isTrue⟩ := splitBy.sound_of_mem (Listing.mem_of_mem_kept listed)
    refine ⟨sketches, ?_⟩
    intro value scrutinized covers
    obtain ⟨⟨branch, among, accepts⟩, allGuarded⟩ :=
      ofRows_accepting_eq_guardedOnly.mp (isTrue value scrutinized covers)
    refine ⟨⟨branch, among, allGuarded branch among accepts, accepts⟩, ?_⟩
    intro other otherAmong unguarded
    by_contra otherAccepts
    have guarded := allGuarded other otherAmong (by simpa using otherAccepts)
    exact Bool.noConfusion (guarded.symm.trans unguarded)

/-- A queue whose first item is one and that has further items is listed as unmatched, and no branch
accepts any such queue. -/
theorem queueMatch_one_and_more_unmatched :
    ∃ verdict grown witness,
      queueMatch.verdict queueEnvironment .bottom .empty {} = .ok (verdict, grown) ∧
      witness = .applied "Front" (.tuple [.int 1, .applied "Front" .wildcard]) ∧
      witness ∈ verdict.unmatched.kept ∧
      ∀ value, queueMatch.Scrutinizes queueEnvironment .empty value → witness.covers value = true →
        ∀ branch ∈ queueMatch.branches, branch.pattern.accepts value = false := by
  have computed : (queueMatch.verdict queueEnvironment .bottom .empty {}).map (fun found =>
      found.1.unmatched.kept)
        = .ok [.constant "Empty", .applied "Front" (.tuple [.int 5, .applied "Front" .wildcard]),
          .applied "Front" (.tuple [.int 1, .applied "Front" .wildcard])] := by
    cbv
  obtain ⟨verdict, grown, runs, unmatched, _⟩ :=
    verdict_witnesses_true queueMatch_wellFormed .bottom {}
  rw [runs] at computed
  have keptAre : verdict.unmatched.kept = [_, _, _] := Except.ok.inj computed
  have listed : .applied "Front" (.tuple [.int 1, .applied "Front" .wildcard])
      ∈ verdict.unmatched.kept := by
    rw [keptAre]
    exact .tail _ (.tail _ (.head _))
  exact ⟨verdict, grown, _, runs, rfl, listed, (unmatched _ listed).2⟩

/-- If the limit lets in all witnesses of a well-formed match, they miss nothing and do not overlap.
A value that no branch accepts without a guard differs in literals only from one that a witness
covers and the same branches accept, and in nothing where the type has no literals.  No value is
covered by two witnesses, and the witnesses listed are those of all gaps. -/
theorem verdict_witnesses_complete (wellFormed : subject.WellFormed env store) (level : Level)
    (options : Options)
    (enough : ∀ findings grown, subject.findings env level store = .ok (findings, grown) →
      ∀ kind, (Verdict.witnessesOf kind findings).length ≤ options.witnessLimit) :
    ∃ verdict findings grown, subject.verdict env level store options = .ok (verdict, grown) ∧
      subject.findings env level store = .ok (findings, grown) ∧
      (∀ value, subject.Scrutinizes env store value →
        (∀ branch ∈ subject.branches, branch.pattern.accepts value = true →
          branch.guarded = true) →
        ∃ witness other, subject.Scrutinizes env store other ∧ value.Similar other ∧
          witness.covers other = true ∧
          (∀ branch ∈ subject.branches,
            branch.pattern.accepts value = branch.pattern.accepts other) ∧
          (¬ (env.outline store).HasLiterals (store.outline subject.scrutinee) → other = value) ∧
          ((∀ branch ∈ subject.branches, branch.pattern.accepts value = false) →
            witness ∈ verdict.unmatched.kept) ∧
          ((∃ branch ∈ subject.branches, branch.pattern.accepts value = true) →
            witness ∈ verdict.guardedOnly.kept)) ∧
      (verdict.unmatched.kept ++ verdict.guardedOnly.kept).Pairwise Witness.Apart ∧
      verdict.unmatched.kept = Verdict.witnessesOf .unmatched findings ∧
      verdict.guardedOnly.kept = Verdict.witnessesOf .guardedOnly findings := by
  obtain ⟨leaves, grown, runs, splitBy⟩ := wellFormed.exists_leaves level
  have apart := splitBy.pairwise_apart
  obtain ⟨unmatchedApart, guardedOnlyApart, _⟩ := List.pairwise_append.mp apart
  have unmatchedKept := Listing.ofWitnesses_of_nodup (nodup_of_pairwise_apart unmatchedApart)
    (enough _ grown runs .unmatched)
  have guardedOnlyKept := Listing.ofWitnesses_of_nodup (nodup_of_pairwise_apart guardedOnlyApart)
    (enough _ grown runs .guardedOnly)
  refine ⟨.ofFindings subject.span options subject.branches.length (.ofLeaves leaves),
    .ofLeaves leaves, grown, ?_, runs, ?_, ?_, ?_, ?_⟩
  · rw [verdict, runs]
    rfl
  · intro value scrutinized allGuarded
    have literalFree {other : Value} (similar : value.Similar other) :
        ¬ (env.outline store).HasLiterals (store.outline subject.scrutinee) → other = value :=
      fun noLiterals => (similar.eq_of_not_hasLiterals scrutinized noLiterals).symm
    simp only [Verdict.ofFindings, unmatchedKept, guardedOnlyKept]
    by_cases unmatched : ∀ branch ∈ subject.branches, branch.pattern.accepts value = false
    · obtain ⟨witness, listed, other, otherScrutinized, similar, covers, same⟩ :=
        splitBy.exists_witness scrutinized (ofRows_accepting_eq_unmatched.mpr unmatched)
      refine ⟨witness, other, otherScrutinized, similar, covers, same, literalFree similar,
        fun _ => listed, ?_⟩
      rintro ⟨branch, among, accepts⟩
      exact Bool.noConfusion (accepts.symm.trans (unmatched branch among))
    · have someAccepts : ∃ branch ∈ subject.branches, branch.pattern.accepts value = true := by
        push Not at unmatched
        simpa only [ne_eq, Bool.not_eq_false] using unmatched
      obtain ⟨witness, listed, other, otherScrutinized, similar, covers, same⟩ :=
        splitBy.exists_witness scrutinized
          (ofRows_accepting_eq_guardedOnly.mpr ⟨someAccepts, allGuarded⟩)
      exact ⟨witness, other, otherScrutinized, similar, covers, same, literalFree similar,
        fun noneAccepts => absurd noneAccepts unmatched, fun _ => listed⟩
  · simp only [Verdict.ofFindings, unmatchedKept, guardedOnlyKept]
    exact apart
  · simp only [Verdict.ofFindings, unmatchedKept]
  · simp only [Verdict.ofFindings, guardedOnlyKept]

/-- Four witnesses are listed for queues, and every queue that no branch takes without its guard differs
in its items only from one that they cover. -/
theorem queueMatch_four_gaps :
    ∃ verdict grown,
      queueMatch.verdict queueEnvironment .bottom .empty { witnessLimit := 3 }
        = .ok (verdict, grown) ∧
      verdict.unmatched.kept ++ verdict.guardedOnly.kept
        = [.constant "Empty", .applied "Front" (.tuple [.int 5, .applied "Front" .wildcard]),
          .applied "Front" (.tuple [.int 1, .applied "Front" .wildcard]),
          .applied "Front" (.tuple [.int 0, .applied "Front" .wildcard])] ∧
      ∀ value, queueMatch.Scrutinizes queueEnvironment .empty value →
        (∀ branch ∈ queueMatch.branches, branch.pattern.accepts value = true →
          branch.guarded = true) →
        ∃ witness ∈ verdict.unmatched.kept ++ verdict.guardedOnly.kept,
          ∃ other, value.Similar other ∧ witness.covers other = true := by
  have computed : (queueMatch.findings queueEnvironment .bottom .empty).map (fun found =>
      (Verdict.witnessesOf .unmatched found.1, Verdict.witnessesOf .guardedOnly found.1))
        = .ok ([.constant "Empty", .applied "Front" (.tuple [.int 5, .applied "Front" .wildcard]),
            .applied "Front" (.tuple [.int 1, .applied "Front" .wildcard])],
          [.applied "Front" (.tuple [.int 0, .applied "Front" .wildcard])]) := by
    cbv
  have enough : ∀ findings grown,
      queueMatch.findings queueEnvironment .bottom .empty = .ok (findings, grown) →
        ∀ kind, (Verdict.witnessesOf kind findings).length ≤ 3 := by
    intro findings grown runs kind
    rw [runs] at computed
    obtain ⟨unmatched, guardedOnly⟩ := Prod.mk.inj (Except.ok.inj computed)
    cases kind with
    | unmatched =>
        rw [unmatched]
        decide
    | guardedOnly =>
        rw [guardedOnly]
        decide
  obtain ⟨verdict, findings, grown, verdictRuns, runs, missesNothing, _, unmatchedKept,
    guardedOnlyKept⟩ :=
    verdict_witnesses_complete queueMatch_wellFormed .bottom { witnessLimit := 3 } enough
  rw [runs] at computed
  obtain ⟨unmatched, guardedOnly⟩ := Prod.mk.inj (Except.ok.inj computed)
  refine ⟨verdict, grown, verdictRuns, ?_, ?_⟩
  · rw [unmatchedKept, guardedOnlyKept, unmatched, guardedOnly]
    rfl
  · intro value scrutinized allGuarded
    obtain ⟨witness, other, _, similar, covers, _, _, inUnmatched, inGuardedOnly⟩ :=
      missesNothing value scrutinized allGuarded
    refine ⟨witness, ?_, other, similar, covers⟩
    by_cases accepted : ∃ branch ∈ queueMatch.branches, branch.pattern.accepts value = true
    · exact List.mem_append_right _ (inGuardedOnly accepted)
    · push Not at accepted
      exact List.mem_append_left _ (inUnmatched (by simpa using accepted))

end Match

end TypedMatch
