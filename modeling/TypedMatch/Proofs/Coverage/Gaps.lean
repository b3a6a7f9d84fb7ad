import TypedMatch.Coverage.Verdict
import TypedMatch.Proofs.Coverage.Run

/-!
# What leaves say

A leaf without rows is a gap, and so is one whose rows all have a guard; any other leaf has a row that
takes every value.  A verdict lists the witnesses of the gaps, and selects the branches of those rows
that only rows with a guard come before.
-/

set_option autoImplicit false

namespace TypedMatch

def HoleKind.ofRows (rows : List Row) : Option HoleKind :=
  if rows.isEmpty then some .unmatched
  else if rows.all (·.guarded) then some .guardedOnly
  else none

def Leaf.gap? (kind : HoleKind) (leaf : Leaf) : Option Witness :=
  if HoleKind.ofRows leaf.rows = some kind then leaf.witnesses.head? else none

variable {rows before after : List Row} {taker : Row} {leaf : Leaf} {leaves : List Leaf}
  {kind : HoleKind}

/-! ## The findings of rows -/

theorem rows_guarded_or_taker (rows : List Row) :
    (∀ row ∈ rows, row.guarded = true) ∨ ∃ before taker after, rows = before ++ taker :: after ∧
      (∀ row ∈ before, row.guarded = true) ∧ taker.guarded = false := by
  induction rows with
  | nil => exact .inl (List.forall_mem_nil _)
  | cons row rest inductionHypothesis =>
      cases guarded : row.guarded with
      | false => exact .inr ⟨[], row, rest, rfl, List.forall_mem_nil _, guarded⟩
      | true =>
          rcases inductionHypothesis with allGuarded | ⟨before, taker, after, rfl, beforeGuarded, takes⟩
          · exact .inl (List.forall_mem_cons.mpr ⟨guarded, allGuarded⟩)
          · exact .inr ⟨row :: before, taker, after, rfl,
              List.forall_mem_cons.mpr ⟨guarded, beforeGuarded⟩, takes⟩

namespace Findings

theorem ofRows_of_guarded (nonempty : rows ≠ []) (guarded : ∀ row ∈ rows, row.guarded = true) :
    ofRows rows = ⟨[⟨.guardedOnly, []⟩], rows.map (·.branch)⟩ := by
  have taken : rows.takeWhile (·.guarded) = rows := List.takeWhile_eq_self_iff.mpr guarded
  have dropped : rows.dropWhile (·.guarded) = [] := List.dropWhile_eq_nil_iff.mpr guarded
  rw [ofRows, List.span_eq_takeWhile_dropWhile, taken, dropped]
  cases rows with
  | nil => exact absurd rfl nonempty
  | cons row rest => rfl

theorem ofRows_of_taker (guarded : ∀ row ∈ before, row.guarded = true)
    (takes : taker.guarded = false) :
    ofRows (before ++ taker :: after) = ⟨[], before.map (·.branch) ++ [taker.branch]⟩ := by
  have stops : taker.guarded ≠ true := by simp [takes]
  have taken : (before ++ taker :: after).takeWhile (·.guarded) = before := by
    rw [List.takeWhile_append_of_pos guarded, List.takeWhile_cons_of_neg stops, List.append_nil]
  have dropped : (before ++ taker :: after).dropWhile (·.guarded) = taker :: after := by
    rw [List.dropWhile_append_of_pos guarded, List.dropWhile_cons_of_neg stops]
  rw [ofRows, List.span_eq_takeWhile_dropWhile, taken, dropped]
  cases before with
  | nil => rfl
  | cons row rest => rfl

theorem mem_reached_ofRows {index : Nat} : index ∈ (ofRows rows).reached ↔
    ∃ before row after, rows = before ++ row :: after ∧
      (∀ earlier ∈ before, earlier.guarded = true) ∧ row.branch = index := by
  rcases rows_guarded_or_taker rows with guarded | ⟨before, taker, after, rfl, guarded, takes⟩
  · cases rows with
    | nil => simp [ofRows, List.span, List.span.loop, unmatched]
    | cons first rest =>
        rw [ofRows_of_guarded (List.cons_ne_nil first rest) guarded, List.mem_map]
        constructor
        · rintro ⟨row, among, rfl⟩
          obtain ⟨before, after, split⟩ := List.append_of_mem among
          refine ⟨before, row, after, split, ?_, rfl⟩
          intro earlier inBefore
          apply guarded earlier
          rw [split]
          exact List.mem_append_left _ inBefore
        · rintro ⟨before, row, after, split, _, rfl⟩
          rw [split]
          exact ⟨row, List.mem_append_right _ (.head _), rfl⟩
  · rw [ofRows_of_taker guarded takes, List.mem_append, List.mem_map, List.mem_singleton]
    constructor
    · rintro (⟨row, among, rfl⟩ | rfl)
      · obtain ⟨first, last, rfl⟩ := List.append_of_mem among
        refine ⟨first, row, last ++ taker :: after, by simp, ?_, rfl⟩
        exact fun earlier inFirst => guarded earlier (List.mem_append_left _ inFirst)
      · exact ⟨before, taker, after, rfl, guarded, rfl⟩
    · rintro ⟨first, row, last, split, firstGuarded, rfl⟩
      rcases List.append_eq_append_iff.mp split with ⟨middle, rfl, tail⟩ | ⟨middle, rfl, tail⟩
      · -- The taker has no guard, so it cannot come before the row.
        cases middle with
        | nil =>
            cases tail
            exact .inr rfl
        | cons other middle =>
            cases tail
            have takerGuarded := firstGuarded taker (List.mem_append_right _ (.head _))
            exact absurd takerGuarded (by simp [takes])
      · cases middle with
        | nil =>
            cases tail
            exact .inr rfl
        | cons other middle =>
            cases tail
            exact .inl ⟨row, List.mem_append_right _ (.head _), rfl⟩

end Findings

/-! ## Gaps -/

namespace HoleKind

theorem ofRows_eq_unmatched : ofRows rows = some .unmatched ↔ rows = [] := by
  unfold ofRows
  cases rows with
  | nil => simp
  | cons row rest =>
      simp only [List.isEmpty_cons, Bool.false_eq_true, if_false, reduceCtorEq, iff_false]
      split <;> simp

theorem ofRows_eq_guardedOnly :
    ofRows rows = some .guardedOnly ↔ rows ≠ [] ∧ ∀ row ∈ rows, row.guarded = true := by
  unfold ofRows
  cases rows with
  | nil => simp
  | cons row rest => simp

theorem ofRows_of_taker (takes : taker.guarded = false) :
    ofRows (before ++ taker :: after) = none := by
  simp [ofRows, takes]

end HoleKind

theorem Leaf.findings_holes (leaf : Leaf) :
    leaf.findings.holes
      = (HoleKind.ofRows leaf.rows).toList.map fun kind => ⟨kind, leaf.witnesses⟩ := by
  obtain ⟨witnesses, rows⟩ := leaf
  rcases rows_guarded_or_taker rows with guarded | ⟨before, taker, after, rfl, guarded, takes⟩
  · cases rows with
    | nil => rfl
    | cons row rest =>
        have isGap := HoleKind.ofRows_eq_guardedOnly.mpr ⟨List.cons_ne_nil row rest, guarded⟩
        rw [findings, Findings.ofRows_of_guarded (List.cons_ne_nil row rest) guarded, isGap]
        rfl
  · rw [findings, Findings.ofRows_of_taker guarded takes, HoleKind.ofRows_of_taker takes]
    rfl

theorem Leaf.witnessesOf_findings (kind : HoleKind) (leaf : Leaf) :
    Verdict.witnessesOf kind leaf.findings = (leaf.gap? kind).toList := by
  rw [Verdict.witnessesOf, findings_holes, gap?]
  cases found : HoleKind.ofRows leaf.rows with
  | none => rfl
  | some other =>
      by_cases same : other = kind
      · subst same
        cases leaf.witnesses <;> simp
      · simp [same]

theorem witnessesOf_ofLeaves (kind : HoleKind) (leaves : List Leaf) :
    Verdict.witnessesOf kind (.ofLeaves leaves) = leaves.filterMap (Leaf.gap? kind) := by
  induction leaves with
  | nil => rfl
  | cons leaf leaves inductionHypothesis =>
      have appended : Verdict.witnessesOf kind (.ofLeaves (leaf :: leaves))
          = Verdict.witnessesOf kind leaf.findings
            ++ Verdict.witnessesOf kind (.ofLeaves leaves) := by
        rw [Findings.ofLeaves_cons, Verdict.witnessesOf, Findings.append, List.filter_append,
          List.filterMap_append]
        rfl
      rw [appended, Leaf.witnessesOf_findings, inductionHypothesis, List.filterMap_cons]
      cases leaf.gap? kind with
      | none => rfl
      | some witness => rfl

theorem mem_reached_ofLeaves {index : Nat} : index ∈ (Findings.ofLeaves leaves).reached ↔
    ∃ leaf ∈ leaves, index ∈ (Findings.ofRows leaf.rows).reached := by
  induction leaves with
  | nil => simp [Findings.ofLeaves, Findings.none]
  | cons leaf leaves inductionHypothesis =>
      rw [Findings.ofLeaves_cons, List.exists_mem_cons_iff, ← inductionHypothesis]
      exact List.mem_append

/-! ## Listings -/

namespace Listing

variable {limit : Nat} {witnesses : List Witness}

theorem isEmpty_ofWitnesses : (ofWitnesses limit witnesses).isEmpty = true ↔ witnesses = [] := by
  rw [isEmpty, ofWitnesses, Bool.and_eq_true, List.isEmpty_iff, beq_iff_eq]
  dsimp only
  constructor
  · rintro ⟨noneKept, noneOmitted⟩
    have lengths := congrArg List.length noneKept
    rw [List.length_take, List.length_nil] at lengths
    have noneDistinct : witnesses.eraseDups = [] := List.length_eq_zero_iff.mp (by omega)
    apply List.eq_nil_iff_forall_not_mem.mpr
    intro witness among
    have listed := List.mem_eraseDups.mpr among
    rw [noneDistinct] at listed
    cases listed
  · rintro rfl
    simp

theorem mem_of_mem_kept {witness : Witness} (listed : witness ∈ (ofWitnesses limit witnesses).kept) :
    witness ∈ witnesses :=
  List.mem_eraseDups.mp (List.mem_of_mem_take listed)

theorem ofWitnesses_of_nodup (distinct : witnesses.Nodup) (enough : witnesses.length ≤ limit) :
    ofWitnesses limit witnesses = ⟨witnesses, 0⟩ := by
  simp only [ofWitnesses, eraseDups_of_nodup distinct, List.take_of_length_le enough,
    Nat.sub_eq_zero_of_le enough]

end Listing

end TypedMatch
