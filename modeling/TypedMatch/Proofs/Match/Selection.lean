import TypedMatch.Proofs.Match.Partition

/-!
# Selected branches

The branch that is selected for a value is the first one, in the order of the match, whose pattern
accepts the value and whose guard holds, if it has one.  What guards say is not known to a check.  It
lists as selected exactly the branches that are selected for some value and some outcome of the
guards; without the others every selection stays as it is.
-/

set_option autoImplicit false

namespace TypedMatch

/-- Whether a branch takes a value if its guard holds or not. -/
def Branch.takes (branch : Branch) (holds : Bool) (value : Value) : Bool :=
  branch.pattern.accepts value && (!branch.guarded || holds)

/-- The number of the branch that is selected for a value, among branches with their numbers. -/
def select? (entries : List (Branch × Nat)) (holds : Nat → Bool) (value : Value) : Option Nat :=
  (entries.find? fun entry => entry.1.takes (holds entry.2) value).map Prod.snd

def InOrder (entries : List (Branch × Nat)) : Prop := entries.Pairwise fun entry later =>
  entry.2 < later.2

variable {entries : List (Branch × Nat)} {holds : Nat → Bool} {value : Value} {index : Nat}

theorem inOrder_zipIdx (branches : List Branch) : InOrder branches.zipIdx := by
  have ascending : (branches.zipIdx.map Prod.snd).Pairwise (· < ·) := by
    rw [List.zipIdx_map_snd]
    exact List.pairwise_lt_range'
  exact List.pairwise_map.mp ascending

theorem InOrder.mem_before_iff {before after : List (Branch × Nat)} {entry other : Branch × Nat}
    (inOrder : InOrder (before ++ entry :: after)) (among : other ∈ before ++ entry :: after) :
    other ∈ before ↔ other.2 < entry.2 := by
  obtain ⟨_, later, apart⟩ := List.pairwise_append.mp inOrder
  constructor
  · intro inBefore
    exact apart other inBefore entry (.head _)
  · intro lower
    rcases List.mem_append.mp among with inBefore | inRest
    · exact inBefore
    · rcases List.mem_cons.mp inRest with rfl | inAfter
      · omega
      · have higher := (List.pairwise_cons.mp later).1 other inAfter
        omega

theorem select?_eq_some_iff (inOrder : InOrder entries) :
    select? entries holds value = some index ↔
      ∃ entry ∈ entries, entry.2 = index ∧ entry.1.takes (holds index) value = true ∧
        ∀ other ∈ entries, other.2 < index → other.1.takes (holds other.2) value = false := by
  rw [select?, Option.map_eq_some_iff]
  constructor
  · rintro ⟨entry, found, rfl⟩
    obtain ⟨takes, before, after, rfl, earlier⟩ := List.find?_eq_some_iff_append.mp found
    refine ⟨entry, List.mem_append_right _ (.head _), rfl, takes, ?_⟩
    intro other among lower
    simpa using earlier other ((inOrder.mem_before_iff among).mpr lower)
  · rintro ⟨entry, among, rfl, takes, earlier⟩
    obtain ⟨before, after, rfl⟩ := List.append_of_mem among
    refine ⟨entry, List.find?_eq_some_iff_append.mpr ⟨takes, before, after, rfl, ?_⟩, rfl⟩
    intro other inBefore
    have inEntries := List.mem_append_left (entry :: after) inBefore
    simpa using earlier other inEntries ((inOrder.mem_before_iff inEntries).mp inBefore)

theorem select?_filter (inOrder : InOrder entries) (keep : Branch × Nat → Bool)
    (keepsSelected : ∀ entry ∈ entries, select? entries holds value = some entry.2 →
      keep entry = true) :
    select? (entries.filter keep) holds value = select? entries holds value := by
  cases selected : select? entries holds value with
  | none =>
      rw [select?, Option.map_eq_none_iff, List.find?_eq_none] at selected ⊢
      exact fun entry kept => selected entry (List.mem_filter.mp kept).1
  | some index =>
      obtain ⟨entry, among, rfl, takes, earlier⟩ := (select?_eq_some_iff inOrder).mp selected
      refine (select?_eq_some_iff (inOrder.sublist List.filter_sublist)).mpr
        ⟨entry, ?_, rfl, takes, ?_⟩
      · exact List.mem_filter.mpr ⟨among, keepsSelected entry among selected⟩
      · exact fun other kept => earlier other (List.mem_filter.mp kept).1

namespace Match

variable {subject : Match} {env : Environment} {store : Store} {leaves : List Leaf}

/-- Whether a branch accepts a value that every branch before it either does not accept or guards. -/
def Reaches (subject : Match) (value : Value) (index : Nat) : Prop :=
  (∃ branch, subject.branches[index]? = some branch ∧ branch.pattern.accepts value = true) ∧
    ∀ earlier < index, ∀ branch, subject.branches[earlier]? = some branch →
      branch.pattern.accepts value = true → branch.guarded = true

theorem mem_accepting_iff {entry : Branch × Nat} : entry ∈ subject.accepting value ↔
    subject.branches[entry.2]? = some entry.1 ∧ entry.1.pattern.accepts value = true := by
  rw [accepting, List.mem_filter, List.mem_zipIdx_iff_getElem?]

theorem inOrder_accepting (subject : Match) (value : Value) : InOrder (subject.accepting value) :=
  (inOrder_zipIdx subject.branches).sublist List.filter_sublist

theorem reaches_iff_exists_accepting : subject.Reaches value index ↔
    ∃ entry ∈ subject.accepting value, entry.2 = index ∧
      ∀ other ∈ subject.accepting value, other.2 < index → other.1.guarded = true := by
  constructor
  · rintro ⟨⟨branch, found, accepts⟩, earlier⟩
    refine ⟨(branch, index), mem_accepting_iff.mpr ⟨found, accepts⟩, rfl, ?_⟩
    intro other among lower
    obtain ⟨otherFound, otherAccepts⟩ := mem_accepting_iff.mp among
    exact earlier other.2 lower other.1 otherFound otherAccepts
  · rintro ⟨entry, among, rfl, earlier⟩
    refine ⟨⟨entry.1, mem_accepting_iff.mp among⟩, ?_⟩
    intro number lower branch found accepts
    exact earlier (branch, number) (mem_accepting_iff.mpr ⟨found, accepts⟩) lower

theorem reaches_iff_exists_select? : subject.Reaches value index ↔
    ∃ holds, select? subject.branches.zipIdx holds value = some index := by
  rw [reaches_iff_exists_accepting]
  constructor
  · rintro ⟨entry, among, rfl, earlier⟩
    obtain ⟨inEntries, accepts⟩ := List.mem_filter.mp among
    -- Only the guard of this branch holds.
    refine ⟨fun number => number == entry.2, (select?_eq_some_iff (inOrder_zipIdx _)).mpr
      ⟨entry, inEntries, rfl, ?_, ?_⟩⟩
    · simp [Branch.takes, accepts]
    · intro other otherInEntries lower
      cases otherAccepts : other.1.pattern.accepts value with
      | false => simp [Branch.takes, otherAccepts]
      | true =>
          have otherAmong : other ∈ subject.accepting value :=
            List.mem_filter.mpr ⟨otherInEntries, otherAccepts⟩
          have different : other.2 ≠ entry.2 := Nat.ne_of_lt lower
          simp [Branch.takes, earlier other otherAmong lower, different]
  · rintro ⟨holds, selected⟩
    obtain ⟨entry, inEntries, rfl, takes, earlier⟩ :=
      (select?_eq_some_iff (inOrder_zipIdx _)).mp selected
    rw [Branch.takes, Bool.and_eq_true] at takes
    refine ⟨entry, List.mem_filter.mpr ⟨inEntries, takes.1⟩, rfl, ?_⟩
    intro other otherAmong lower
    obtain ⟨otherInEntries, otherAccepts⟩ := List.mem_filter.mp otherAmong
    have refuses := earlier other otherInEntries lower
    rw [Branch.takes, otherAccepts, Bool.true_and, Bool.or_eq_false_iff] at refuses
    simpa using refuses.1

theorem mem_reached_accepting :
    index ∈ (Findings.ofRows ((subject.accepting value).map Row.ofEntry)).reached ↔
      subject.Reaches value index := by
  have inOrder := inOrder_accepting subject value
  rw [Findings.mem_reached_ofRows, reaches_iff_exists_accepting]
  constructor
  · rintro ⟨before, row, after, split, guarded, rfl⟩
    obtain ⟨first, last, isAccepting, rfl, isLast⟩ := List.map_eq_append_iff.mp split
    obtain ⟨entry, later, rfl, rfl, rfl⟩ := List.map_eq_cons_iff.mp isLast
    rw [isAccepting] at inOrder ⊢
    refine ⟨entry, List.mem_append_right _ (.head _), rfl, ?_⟩
    intro other among lower
    have inFirst := (inOrder.mem_before_iff among).mpr lower
    exact guarded (.ofEntry other) (List.mem_map_of_mem inFirst)
  · rintro ⟨entry, among, rfl, earlier⟩
    obtain ⟨first, last, isAccepting⟩ := List.append_of_mem among
    rw [isAccepting] at inOrder earlier ⊢
    refine ⟨first.map Row.ofEntry, .ofEntry entry, last.map Row.ofEntry, ?_, ?_, rfl⟩
    · rw [List.map_append, List.map_cons]
    · refine List.forall_mem_map.mpr ?_
      intro other inFirst
      have inEntries := List.mem_append_left (entry :: last) inFirst
      exact earlier other inEntries ((inOrder.mem_before_iff inEntries).mp inFirst)

theorem SplitBy.mem_reached_iff (splitBy : subject.SplitBy env store leaves)
    (populated : (env.outline store).Populated (store.outline subject.scrutinee)) :
    index ∈ (Findings.ofLeaves leaves).reached ↔
      ∃ value, subject.Scrutinizes env store value ∧ subject.Reaches value index := by
  rw [mem_reached_ofLeaves]
  constructor
  · rintro ⟨leaf, among, reached⟩
    obtain ⟨value, scrutinized, covers⟩ := splitBy.inhabited populated leaf among
    rw [splitBy.exact leaf among value scrutinized covers, mem_reached_accepting] at reached
    exact ⟨value, scrutinized, reached⟩
  · rintro ⟨value, scrutinized, reaches⟩
    obtain ⟨leaf, among, other, otherScrutinized, _, covers, same⟩ :=
      splitBy.complete value scrutinized
    refine ⟨leaf, among, ?_⟩
    rw [splitBy.exact leaf among other otherScrutinized covers, ← same, mem_reached_accepting]
    exact reaches

theorem mem_selected_iff {span : Span} {options : Options} {count : Nat} {findings : Findings} :
    index ∈ (Verdict.ofFindings span options count findings).selected ↔
      index < count ∧ index ∈ findings.reached := by
  rw [Verdict.ofFindings, List.mem_filter, List.mem_range, List.contains_iff_mem]

theorem mem_unselected_iff {span : Span} {options : Options} {count : Nat} {findings : Findings} :
    index ∈ (Verdict.ofFindings span options count findings).unselected ↔
      index < count ∧ index ∉ findings.reached := by
  rw [Verdict.ofFindings, List.mem_filter, List.mem_range, Bool.not_eq_true', ← Bool.not_eq_true,
    List.contains_iff_mem]

/-- A branch of a well-formed match is listed as selected exactly if some value of the type is accepted
by it and by no branch without a guard before, that is, if it is selected for some value and some
outcome of the guards.  The others are listed as not selected, in ascending order, and leaving any of
them out changes no selection. -/
theorem verdict_selected_iff (wellFormed : subject.WellFormed env store)
    (populated : (env.outline store).Populated (store.outline subject.scrutinee))
    (level : Level) (options : Options) :
    ∃ verdict grown, subject.verdict env level store options = .ok (verdict, grown) ∧
      (∀ index, index ∈ verdict.selected ↔
        ∃ value, subject.Scrutinizes env store value ∧ subject.Reaches value index) ∧
      (∀ index, index ∈ verdict.selected ↔
        ∃ value holds, subject.Scrutinizes env store value ∧
          select? subject.branches.zipIdx holds value = some index) ∧
      (∀ index, index ∈ verdict.unselected ↔
        index < subject.branches.length ∧ index ∉ verdict.selected) ∧
      verdict.unselected.Pairwise (· < ·) ∧
      ∀ omitted : List Nat, (∀ index ∈ omitted, index ∈ verdict.unselected) →
        ∀ value holds, subject.Scrutinizes env store value →
          select? (subject.branches.zipIdx.filter fun entry => !omitted.contains entry.2) holds value
            = select? subject.branches.zipIdx holds value := by
  obtain ⟨leaves, grown, runs, splitBy⟩ := wellFormed.exists_leaves level
  let verdict : Verdict :=
    .ofFindings subject.span options subject.branches.length (.ofLeaves leaves)
  have selectedIff : ∀ index, index ∈ verdict.selected ↔
      ∃ value, subject.Scrutinizes env store value ∧ subject.Reaches value index := by
    intro index
    rw [← splitBy.mem_reached_iff populated, mem_selected_iff]
    apply and_iff_right_of_imp
    intro reached
    obtain ⟨_, _, ⟨_, found, _⟩, _⟩ := (splitBy.mem_reached_iff populated).mp reached
    exact (List.getElem?_eq_some_iff.mp found).1
  have unselectedIff : ∀ index, index ∈ verdict.unselected ↔
      index < subject.branches.length ∧ index ∉ verdict.selected := by
    intro index
    rw [mem_unselected_iff, mem_selected_iff, not_and]
    exact and_congr_right fun inRange => ⟨fun unreached _ => unreached, fun rest => rest inRange⟩
  refine ⟨verdict, grown, ?_, selectedIff, ?_, unselectedIff, ?_, ?_⟩
  · rw [Match.verdict, runs]
    rfl
  · intro index
    simp only [selectedIff, reaches_iff_exists_select?, exists_and_left]
  · exact List.pairwise_lt_range.sublist List.filter_sublist
  · intro omitted subset value holds scrutinized
    refine select?_filter (inOrder_zipIdx _) _ ?_
    intro entry _ selected
    have isSelected : entry.2 ∈ verdict.selected :=
      (selectedIff entry.2).mpr ⟨value, scrutinized, reaches_iff_exists_select?.mpr ⟨holds, selected⟩⟩
    have notOmitted : entry.2 ∉ omitted := fun isOmitted =>
      ((unselectedIff entry.2).mp (subset entry.2 isOmitted)).2 isSelected
    simpa using notOmitted

/-- The last branch for queues is listed as not selected, and no queue of integers selects it, whatever
the guard says. -/
theorem queueMatch_last_not_selected :
    ∃ verdict grown, queueMatch.verdict queueEnvironment .bottom .empty {} = .ok (verdict, grown) ∧
      verdict.unselected = [2] ∧
      ∀ value holds, queueMatch.Scrutinizes queueEnvironment .empty value →
        select? queueMatch.branches.zipIdx holds value ≠ some 2 := by
  have computed : (queueMatch.verdict queueEnvironment .bottom .empty {}).map (fun found =>
      found.1.unselected) = .ok [2] := by
    cbv
  obtain ⟨verdict, grown, runs, _, selected, unselected, _, _⟩ :=
    verdict_selected_iff queueMatch_wellFormed queueMatch_populated .bottom {}
  rw [runs] at computed
  have unselectedIs : verdict.unselected = [2] := Except.ok.inj computed
  refine ⟨verdict, grown, runs, unselectedIs, ?_⟩
  intro value holds scrutinized isSelected
  have isListed : 2 ∈ verdict.unselected := by
    rw [unselectedIs]
    exact .head _
  exact ((unselected 2).mp isListed).2 ((selected 2).mpr ⟨value, holds, scrutinized, isSelected⟩)

end Match

end TypedMatch
