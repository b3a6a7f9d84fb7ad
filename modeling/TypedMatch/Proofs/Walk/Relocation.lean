import TypedMatch.Proofs.Walk.Reachable

/-!
# Walks through renamed nodes

A walk depends on the nodes only through their edges.  Where the nodes that can be reached are renamed,
no two alike, and their edges are renamed with them, the walk enters and finishes the renamed nodes in the
same order.  A depth beyond what is needed does not matter, so the two walks need not be equally deep.

Every node is finished at most once, and after it has been entered.
-/

set_option autoImplicit false

namespace TypedMatch.Trail

variable {Node Other : Type}

def map (rename : Node → Other) (trail : Trail Node) : Trail Other :=
  ⟨trail.entered.map rename, trail.finished.map rename⟩

variable [DecidableEq Node] {next : Node → List Node}

/-! ## Depth -/

theorem foldl_eq_of_unseen {step other : Trail Node → Node → Trail Node} {sources : List Node}
    {bound : Nat}
    (agree : ∀ trail node, trail.unseen sources < bound →
      step trail node = other trail node ∧ (other trail node).Continues next trail)
    (nodes : List Node) (trail : Trail Node) (few : trail.unseen sources < bound) :
    nodes.foldl step trail = nodes.foldl other trail := by
  induction nodes generalizing trail with
  | nil => rfl
  | cons node rest inductionHypothesis =>
      obtain ⟨same, continues⟩ := agree trail node few
      have stillFew := Nat.lt_of_le_of_lt (continues.unseen_le sources) few
      rw [List.foldl_cons, List.foldl_cons, same]
      exact inductionHypothesis _ stillFew

theorem visit_add {sources : List Node} (covers : ∀ node, next node ≠ [] → node ∈ sources)
    (more : Nat) :
    ∀ (fuel : Nat) (trail : Trail Node) (node : Node), trail.unseen sources < fuel →
      visit next (fuel + more) trail node = visit next fuel trail node := by
  intro fuel
  induction fuel with
  | zero => exact fun _ _ enough => absurd enough (Nat.not_lt_zero _)
  | succ fuel inductionHypothesis =>
      intro trail node enough
      rw [Nat.succ_add, visit, visit]
      split
      · rfl
      · rename_i fresh
        by_cases leaf : next node = []
        · simp only [leaf, List.foldl_nil]
        · -- Only here does the walk go down, and one node with edges less is left to see.
          have fewer := unseen_enter_lt (covers node leaf) fresh
          have sameInner := foldl_eq_of_unseen
            (fun before other few => ⟨inductionHypothesis before other few,
              (continues_visit covers fuel before other few).1⟩)
            (next node) ⟨trail.entered ++ [node], trail.finished⟩ (by omega)
          simp only [sameInner]

theorem walk_add {sources : List Node} (covers : ∀ node, next node ≠ [] → node ∈ sources)
    (roots : List Node) (more : Nat) :
    walk next (sources.length + 1 + more) roots = walk next (sources.length + 1) roots :=
  foldl_eq_of_unseen
    (fun before other few => ⟨visit_add covers more _ before other few,
      (continues_visit covers _ before other few).1⟩)
    roots start (Nat.lt_succ_of_le List.countP_le_length)

/-! ## Renamed nodes -/

variable [DecidableEq Other] {nextOther : Other → List Other} {rename : Node → Other}
  {holds : Node → Prop}

omit [DecidableEq Node] [DecidableEq Other] in
theorem foldl_map {step : Trail Node → Node → Trail Node}
    {stepOther : Trail Other → Other → Trail Other}
    (each : ∀ trail node, (∀ other ∈ trail.entered, holds other) → holds node →
      stepOther (trail.map rename) (rename node) = (step trail node).map rename ∧
        ∀ other ∈ (step trail node).entered, holds other)
    (nodes : List Node) (nodesHold : ∀ node ∈ nodes, holds node) (trail : Trail Node)
    (trailHolds : ∀ other ∈ trail.entered, holds other) :
    (nodes.map rename).foldl stepOther (trail.map rename) = (nodes.foldl step trail).map rename := by
  induction nodes generalizing trail with
  | nil => rfl
  | cons node rest inductionHypothesis =>
      obtain ⟨nodeHolds, restHold⟩ := List.forall_mem_cons.mp nodesHold
      obtain ⟨renamed, stillHolds⟩ := each trail node trailHolds nodeHolds
      rw [List.map_cons, List.foldl_cons, List.foldl_cons, renamed]
      exact inductionHypothesis restHold _ stillHolds

theorem visit_map
    (injective : ∀ node other, holds node → holds other → rename node = rename other → node = other)
    (passed : ∀ node, holds node → ∀ other ∈ next node, holds other)
    (edges : ∀ node, holds node → nextOther (rename node) = (next node).map rename) (fuel : Nat) :
    ∀ (trail : Trail Node) (node : Node), (∀ other ∈ trail.entered, holds other) → holds node →
      visit nextOther fuel (trail.map rename) (rename node) = (visit next fuel trail node).map rename := by
  induction fuel with
  | zero => exact fun _ _ _ _ => rfl
  | succ fuel inductionHypothesis =>
      intro trail node trailHolds nodeHolds
      have sameEntered : rename node ∈ (trail.map rename).entered ↔ node ∈ trail.entered := by
        constructor
        · intro among
          obtain ⟨other, inTrail, same⟩ := List.mem_map.mp among
          rwa [← injective other node (trailHolds other inTrail) nodeHolds same]
        · exact List.mem_map_of_mem
      rw [visit, visit]
      by_cases seen : node ∈ trail.entered
      · rw [if_pos seen, if_pos (sameEntered.mpr seen)]
      · rw [if_neg seen, if_neg (mt sameEntered.mp seen)]
        have entering : (⟨(trail.map rename).entered ++ [rename node], (trail.map rename).finished⟩ :
            Trail Other) = (⟨trail.entered ++ [node], trail.finished⟩ : Trail Node).map rename := by
          simp only [map, List.map_append, List.map_singleton]
        have enteringHolds : ∀ other ∈ trail.entered ++ [node], holds other := by
          intro other among
          rcases List.mem_append.mp among with inTrail | isNode
          · exact trailHolds other inTrail
          · rw [List.mem_singleton.mp isNode]
            exact nodeHolds
        have inner := foldl_map
          (fun before other beforeHolds otherHolds => ⟨inductionHypothesis before other beforeHolds
            otherHolds, entered_visit_of_closed passed fuel before other beforeHolds otherHolds⟩)
          (next node) (passed node nodeHolds) ⟨trail.entered ++ [node], trail.finished⟩ enteringHolds
        simp only [edges node nodeHolds, entering, inner]
        simp only [map, List.map_append, List.map_singleton]

/-- Walks that are deep enough, from roots and renamed roots, enter and finish in the same order. -/
theorem walk_map {sources : List Node} {sourcesOther : List Other} {roots : List Node}
    (covers : ∀ node, next node ≠ [] → node ∈ sources)
    (coversOther : ∀ node, nextOther node ≠ [] → node ∈ sourcesOther)
    (injective : ∀ node other, Reachable next roots node → Reachable next roots other →
      rename node = rename other → node = other)
    (edges : ∀ node, Reachable next roots node → nextOther (rename node) = (next node).map rename) :
    walk nextOther (sourcesOther.length + 1) (roots.map rename)
      = (walk next (sources.length + 1) roots).map rename := by
  have passed : ∀ node, Reachable next roots node → ∀ other ∈ next node, Reachable next roots other :=
    fun _ reached _ isEdge => .edge reached isEdge
  have equallyDeep (fuel : Nat) :
      walk nextOther fuel (roots.map rename) = (walk next fuel roots).map rename :=
    foldl_map
      (fun before other beforeHolds otherHolds =>
        ⟨visit_map injective passed edges fuel before other beforeHolds otherHolds,
          entered_visit_of_closed passed fuel before other beforeHolds otherHolds⟩)
      roots (fun _ isRoot => .root isRoot) start (List.forall_mem_nil _)
  have deeper := walk_add covers roots sourcesOther.length
  have deeperOther := walk_add coversOther (roots.map rename) sources.length
  rw [← deeper, ← deeperOther, equallyDeep]
  congr 2
  omega

/-! ## Finishing -/

/-- Whether a trail continues another one by finishing the given nodes, each of which it has entered
only since. -/
structure Finishes (later earlier : Trail Node) (done : List Node) : Prop where
  entered : ∀ node ∈ earlier.entered, node ∈ later.entered
  finished : later.finished = earlier.finished ++ done
  distinct : done.Nodup
  fresh : ∀ node ∈ done, node ∉ earlier.entered
  known : ∀ node ∈ done, node ∈ later.entered

omit [DecidableEq Node] in
theorem Finishes.refl (trail : Trail Node) : trail.Finishes trail [] where
  entered _ among := among
  finished := (List.append_nil _).symm
  distinct := List.nodup_nil
  fresh := List.forall_mem_nil _
  known := List.forall_mem_nil _

omit [DecidableEq Node] in
theorem Finishes.trans {later middle earlier : Trail Node} {done more : List Node}
    (second : later.Finishes middle more) (first : middle.Finishes earlier done) :
    later.Finishes earlier (done ++ more) where
  entered node among := second.entered node (first.entered node among)
  finished := by rw [second.finished, first.finished, List.append_assoc]
  distinct := by
    refine List.nodup_append.mpr ⟨first.distinct, second.distinct, ?_⟩
    rintro node inDone other inMore rfl
    exact second.fresh node inMore (first.known node inDone)
  fresh := by
    intro node among
    rcases List.mem_append.mp among with inDone | inMore
    · exact first.fresh node inDone
    · exact fun old => second.fresh node inMore (first.entered node old)
  known := by
    intro node among
    rcases List.mem_append.mp among with inDone | inMore
    · exact second.entered node (first.known node inDone)
    · exact second.known node inMore

omit [DecidableEq Node] in
theorem exists_finishes_foldl {step : Trail Node → Node → Trail Node}
    (each : ∀ trail node, ∃ done, (step trail node).Finishes trail done) (nodes : List Node)
    (trail : Trail Node) : ∃ done, (nodes.foldl step trail).Finishes trail done := by
  induction nodes generalizing trail with
  | nil => exact ⟨[], .refl trail⟩
  | cons node rest inductionHypothesis =>
      obtain ⟨done, first⟩ := each trail node
      obtain ⟨more, second⟩ := inductionHypothesis (step trail node)
      exact ⟨done ++ more, second.trans first⟩

theorem exists_finishes_visit (fuel : Nat) :
    ∀ (trail : Trail Node) (node : Node), ∃ done, (visit next fuel trail node).Finishes trail done := by
  induction fuel with
  | zero => exact fun trail _ => ⟨[], .refl trail⟩
  | succ fuel inductionHypothesis =>
      intro trail node
      rw [visit]
      split
      · exact ⟨[], .refl trail⟩
      · rename_i unseen
        obtain ⟨done, inner⟩ := exists_finishes_foldl inductionHypothesis (next node)
          ⟨trail.entered ++ [node], trail.finished⟩
        have nodeNotDone : node ∉ done := fun among =>
          inner.fresh node among (List.mem_append_right _ (List.mem_singleton.mpr rfl))
        refine ⟨done ++ [node], ?_, ?_, ?_, ?_, ?_⟩
        · exact fun other among => inner.entered other (List.mem_append_left _ among)
        · simp only [inner.finished, List.append_assoc]
        · refine List.nodup_append.mpr ⟨inner.distinct, List.pairwise_singleton _ _, ?_⟩
          rintro other inDone last isLast rfl
          exact nodeNotDone (List.mem_singleton.mp isLast ▸ inDone)
        · intro other among
          rcases List.mem_append.mp among with inDone | isNode
          · exact fun old => inner.fresh other inDone (List.mem_append_left _ old)
          · rw [List.mem_singleton.mp isNode]
            exact unseen
        · intro other among
          rcases List.mem_append.mp among with inDone | isNode
          · exact inner.known other inDone
          · rw [List.mem_singleton.mp isNode]
            exact inner.entered node (List.mem_append_right _ (List.mem_singleton.mpr rfl))

variable {fuel : Nat} {roots : List Node}

theorem exists_finishes_walk (next : Node → List Node) (fuel : Nat) (roots : List Node) :
    ∃ done, (walk next fuel roots).Finishes start done :=
  exists_finishes_foldl (exists_finishes_visit fuel) roots start

theorem nodup_finished_walk : (walk next fuel roots).finished.Nodup := by
  obtain ⟨done, walked⟩ := exists_finishes_walk next fuel roots
  rw [walked.finished]
  exact walked.distinct

theorem entered_of_mem_finished {node : Node} (among : node ∈ (walk next fuel roots).finished) :
    node ∈ (walk next fuel roots).entered := by
  obtain ⟨done, walked⟩ := exists_finishes_walk next fuel roots
  rw [walked.finished] at among
  exact walked.known node among

end TypedMatch.Trail
