import TypedMatch.Proofs.Coverage.Finds

/-!
# A check comes to the leaves

Rows that fit their slots split into leaves, and what there is to find out is read off these: every leaf
contributes the branches that values at it reach, and a hole if no branch or none without a guard is
left.  So for owned slots a check of such rows succeeds, and finds out what the leaves say.
-/

set_option autoImplicit false

namespace TypedMatch

def Leaf.findings (leaf : Leaf) : Findings :=
  (Findings.ofRows leaf.rows).mapHoles fun hole => { hole with witnesses := leaf.witnesses }

def Findings.ofLeaves (leaves : List Leaf) : Findings :=
  leaves.foldr (fun leaf others => leaf.findings.append others) .none

namespace Findings

theorem mapHoles_append (change : Hole → Hole) (first second : Findings) :
    (first.append second).mapHoles change
      = (first.mapHoles change).append (second.mapHoles change) := by
  simp only [append, mapHoles, List.map_append]

theorem append_assoc (first second third : Findings) :
    (first.append second).append third = first.append (second.append third) := by
  simp only [append, List.append_assoc]

theorem append_none (findings : Findings) : findings.append .none = findings := by
  simp only [append, none, List.append_nil]

theorem ofLeaves_cons (leaf : Leaf) (leaves : List Leaf) :
    ofLeaves (leaf :: leaves) = leaf.findings.append (ofLeaves leaves) := rfl

theorem ofLeaves_append (leaves others : List Leaf) :
    ofLeaves (leaves ++ others) = (ofLeaves leaves).append (ofLeaves others) := by
  induction leaves with
  | nil => rfl
  | cons leaf leaves inductionHypothesis =>
      rw [List.cons_append, ofLeaves_cons, inductionHypothesis, ofLeaves_cons, append_assoc]

theorem mapHoles_ofLeaves {change : Hole → Hole} {changeLeaf : Leaf → Leaf}
    (agree : ∀ leaf, (Leaf.findings leaf).mapHoles change = (changeLeaf leaf).findings)
    (leaves : List Leaf) :
    (ofLeaves leaves).mapHoles change = ofLeaves (leaves.map changeLeaf) := by
  induction leaves with
  | nil => rfl
  | cons leaf leaves inductionHypothesis =>
      rw [ofLeaves_cons, mapHoles_append, agree, inductionHypothesis]
      rfl

end Findings

theorem Leaf.findings_skip (leaf : Leaf) : leaf.findings.mapHoles Hole.skip = leaf.skip.findings := by
  simp only [findings, Findings.mapHoles, List.map_map]
  rfl

theorem Leaf.findings_fold (head : Head Unit) (leaf : Leaf) :
    leaf.findings.mapHoles (Hole.fold head) = (leaf.fold head).findings := by
  simp only [findings, Findings.mapHoles, List.map_map]
  rfl

theorem Leaf.findings_done (rows : List Row) : (Leaf.mk [] rows).findings = .ofRows rows := by
  unfold findings Findings.ofRows
  dsimp only
  split
  · rfl
  · rfl
  · rfl

/-! ## From rows to findings -/

def Leaf.foldAll (families : List (Head Unit × List Leaf)) : List Leaf :=
  families.flatMap fun family => family.2.map (Leaf.fold family.1)

theorem Findings.foldAll_ofLeaves (families : List (Head Unit × List Leaf)) :
    foldAll (families.map fun family => (family.1, ofLeaves family.2))
      = ofLeaves (Leaf.foldAll families) := by
  induction families with
  | nil => rfl
  | cons family families inductionHypothesis =>
      have folded := mapHoles_ofLeaves (Leaf.findings_fold family.1) family.2
      rw [foldAll] at inductionHypothesis ⊢
      rw [List.map_cons, List.foldr_cons, inductionHypothesis, folded, ← ofLeaves_append]
      rfl

theorem exists_families {holds : Head Unit → List Leaf → Prop} {heads : List (Head Unit)}
    (each : ∀ head ∈ heads, ∃ leaves, holds head leaves) :
    ∃ families : List (Head Unit × List Leaf), families.map Prod.fst = heads ∧
      ∀ family ∈ families, holds family.1 family.2 := by
  induction heads with
  | nil => exact ⟨[], rfl, List.forall_mem_nil _⟩
  | cons head more inductionHypothesis =>
      obtain ⟨leaves, first⟩ := each head (.head _)
      obtain ⟨families, sameHeads, others⟩ :=
        inductionHypothesis fun other among => each other (.tail _ among)
      exact ⟨(head, leaves) :: families, congrArg (head :: ·) sameHeads,
        List.forall_mem_cons.mpr ⟨first, others⟩⟩

/-- Rows that fit their slots split into leaves, and these say what there is to find out. -/
theorem Environment.Typed.exists_splits {env : Environment} (rows : List Row)
    (slots : List (Ty Unit)) (typed : env.Typed rows slots) :
    ∃ leaves, env.Splits rows slots leaves ∧ env.Finds rows slots (.ofLeaves leaves) := by
  match slots, typed with
  | [], _ =>
      refine ⟨[⟨[], rows⟩], .done rows, ?_⟩
      rw [Findings.ofLeaves_cons, Leaf.findings_done]
      rw [Findings.ofLeaves, List.foldr_nil, Findings.append_none]
      exact .done rows
  | slot :: rest, typed =>
      by_cases empty : rows = []
      · subst empty
        exact ⟨_, .spent (slot :: rest), .spent slot rest⟩
      · cases skips : rows.all Row.skips with
        | true =>
            obtain ⟨leaves, splits, finds⟩ := exists_splits (rows.map Row.tail) rest typed.tail
            refine ⟨leaves.map Leaf.skip, .skip skips splits, ?_⟩
            rw [← Findings.mapHoles_ofLeaves Leaf.findings_skip]
            exact .skip empty skips finds
        | false =>
            obtain ⟨heads, lists, enumerates⟩ :=
              exists_lists typed.slot_sound.rootDeclared typed.columnFits (typed.exists_asking skips)
            have each : ∀ head ∈ heads, ∃ leaves,
                env.Splits (keptRows head rows) (head.slots ++ rest) leaves ∧
                  env.Finds (keptRows head rows) (head.slots ++ rest) (.ofLeaves leaves) :=
              fun head among => exists_splits (keptRows head rows) (head.slots ++ rest)
                (typed.kept ((enumerates.mem_iff head).mp among))
            obtain ⟨families, rfl, hold⟩ := exists_families each
            refine ⟨Leaf.foldAll families,
              .split skips enumerates fun family among => (hold family among).1, ?_⟩
            rw [← Findings.foldAll_ofLeaves]
            refine .split skips ?_ (List.forall_mem_map.mpr fun family among => (hold family among).2)
            rw [List.map_map]
            exact lists
termination_by (openNodes rows, slots.length)
decreasing_by
  · exact .left _ _ (openNodes_keptRows_lt head skips)
  · rw [openNodes_map_tail skips]
    exact .right _ (Nat.lt_succ_self _)

variable {env : Environment} {base : Store}

/-- For owned slots and rows that fit them a check succeeds, and finds out what there is to find out
at the leaves. -/
theorem cover_splits (acyclic : base.Acyclic) (owned : env.OwnedBy base) (level : Level)
    (store : Store) (extension : store.Extends base) (rows : List Row) (slots : List (Ty MetaVar))
    (slotsOwned : ∀ slot ∈ slots, store.Owns slot.leaves)
    (typed : (env.outline base).Typed rows (slots.map store.outline)) :
    ∃ leaves grown, cover env level store rows slots = .ok (.ofLeaves leaves, grown) ∧
      grown.Extends store ∧ (env.outline base).Splits rows (slots.map store.outline) leaves := by
  obtain ⟨leaves, splits, finds⟩ := typed.exists_splits
  rcases cover_decides acyclic owned level store extension rows slots slotsOwned with
    ⟨findings, grown, runs, growth, computed⟩ | ⟨nothing, _⟩
  · rw [computed.unique finds] at runs
    exact ⟨leaves, grown, runs, growth, splits⟩
  · exact absurd finds (nothing _)

end TypedMatch
