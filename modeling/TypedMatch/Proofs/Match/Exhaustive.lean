import TypedMatch.Proofs.Match.Partition

/-!
# Exhaustive matches

A check calls a match exhaustive exactly if every value of the matched type is accepted by the pattern
of some branch.  It says that a match needs its guards exactly if some value is accepted by guarded
branches and by no other.  Both take for granted that every type that is met has a value: a branch for
the values of a type that has none is asked for nevertheless.
-/

set_option autoImplicit false

namespace TypedMatch.Match

variable {subject : Match} {env : Environment} {store : Store} {leaves : List Leaf} {value : Value}

namespace SplitBy

theorem witnessesOf_eq_nil_iff (splitBy : subject.SplitBy env store leaves)
    (populated : (env.outline store).Populated (store.outline subject.scrutinee))
    (kind : HoleKind) : Verdict.witnessesOf kind (.ofLeaves leaves) = [] ↔
      ∀ value, subject.Scrutinizes env store value →
        HoleKind.ofRows ((subject.accepting value).map Row.ofEntry) ≠ some kind := by
  rw [witnessesOf_ofLeaves, List.filterMap_eq_nil_iff]
  constructor
  · intro noGap value scrutinized isGap
    obtain ⟨leaf, among, other, otherScrutinized, _, covers, same⟩ :=
      splitBy.complete value scrutinized
    obtain ⟨witness, single, _⟩ := splitBy.single leaf among
    have rowsEq := splitBy.exact leaf among other otherScrutinized covers
    have leafIsGap : leaf.gap? kind = some witness := by
      rw [Leaf.gap?, rowsEq, ← same, if_pos isGap, single]
      rfl
    rw [noGap leaf among] at leafIsGap
    cases leafIsGap
  · intro handled leaf among
    obtain ⟨value, scrutinized, covers⟩ := splitBy.inhabited populated leaf among
    rw [Leaf.gap?, splitBy.exact leaf among value scrutinized covers,
      if_neg (handled value scrutinized)]

end SplitBy

/-- A well-formed match is found exhaustive exactly if every value of its type is accepted by some
branch, and found to need its guards exactly if some value is accepted by guarded branches alone. -/
theorem verdict_exhaustive_iff (wellFormed : subject.WellFormed env store)
    (populated : (env.outline store).Populated (store.outline subject.scrutinee))
    (level : Level) (options : Options) :
    ∃ verdict grown, subject.verdict env level store options = .ok (verdict, grown) ∧
      (verdict.isExhaustive = true ↔ ∀ value, subject.Scrutinizes env store value →
        ∃ branch ∈ subject.branches, branch.pattern.accepts value = true) ∧
      (verdict.needsGuards = true ↔ ∃ value, subject.Scrutinizes env store value ∧
        (∃ branch ∈ subject.branches, branch.pattern.accepts value = true) ∧
        ∀ branch ∈ subject.branches, branch.pattern.accepts value = true →
          branch.guarded = true) := by
  obtain ⟨leaves, grown, runs, splitBy⟩ := wellFormed.exists_leaves level
  refine ⟨.ofFindings subject.span options subject.branches.length (.ofLeaves leaves), grown, ?_, ?_,
    ?_⟩
  · rw [verdict, runs]
    rfl
  · rw [Verdict.isExhaustive]
    apply Listing.isEmpty_ofWitnesses.trans
    rw [splitBy.witnessesOf_eq_nil_iff populated]
    simp only [Ne, ofRows_accepting_eq_unmatched]
    push Not
    simp only [ne_eq, Bool.not_eq_false]
  · rw [Verdict.needsGuards, Bool.not_eq_true', ← Bool.not_eq_true]
    apply (not_congr Listing.isEmpty_ofWitnesses).trans
    rw [splitBy.witnessesOf_eq_nil_iff populated]
    simp only [Ne, ofRows_accepting_eq_guardedOnly]
    push Not
    rfl

/-- No branch takes the empty queue, and only the guarded one takes two zeros. -/
theorem queueMatch_not_exhaustive :
    ∃ verdict grown,
      queueMatch.verdict queueEnvironment .bottom .empty { witnessLimit := 0 }
        = .ok (verdict, grown) ∧
      verdict.isExhaustive = false ∧ verdict.needsGuards = true := by
  obtain ⟨verdict, grown, runs, exhaustive, guards⟩ :=
    verdict_exhaustive_iff queueMatch_wellFormed queueMatch_populated .bottom { witnessLimit := 0 }
  refine ⟨verdict, grown, runs, ?_, ?_⟩
  · rw [Bool.eq_false_iff]
    intro isExhaustive
    obtain ⟨branch, among, accepts⟩ :=
      exhaustive.mp isExhaustive (queueOf []) (scrutinizes_queueOf (by decide))
    have none : ∀ branch ∈ queueMatch.branches, branch.pattern.accepts (queueOf []) = false := by
      decide
    exact Bool.noConfusion (accepts.symm.trans (none branch among))
  · exact guards.mpr ⟨queueOf [0, 0], scrutinizes_queueOf (by decide), by decide, by decide⟩

end TypedMatch.Match
