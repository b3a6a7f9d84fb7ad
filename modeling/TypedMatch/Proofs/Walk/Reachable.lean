import TypedMatch.Walk

/-!
# What a walk enters

A walk that is deep enough enters the nodes that can be reached from its roots, and no others, and it
finishes all of them.  Deep enough is a depth beyond the number of nodes that have edges: on its way
down a walk enters a new node with every step, and only a node with edges leads further down.
-/

set_option autoImplicit false

namespace TypedMatch.Trail

variable {Node : Type}

inductive Reachable (next : Node → List Node) (roots : List Node) : Node → Prop
  | root {node : Node} : node ∈ roots → Reachable next roots node
  | edge {node other : Node} : Reachable next roots node → other ∈ next node →
      Reachable next roots other

/-! ## Continued walks -/

/-- Whether a trail continues another one, and has left no node of its own unfinished or without its
edges. -/
structure Continues (next : Node → List Node) (later earlier : Trail Node) : Prop where
  entered : ∀ node ∈ earlier.entered, node ∈ later.entered
  finished : ∀ node ∈ earlier.finished, node ∈ later.finished
  completed : ∀ node ∈ later.entered, node ∈ earlier.entered ∨
    node ∈ later.finished ∧ ∀ other ∈ next node, other ∈ later.entered

variable {next : Node → List Node} {earlier middle later : Trail Node}

theorem Continues.refl (trail : Trail Node) : trail.Continues next trail :=
  ⟨fun _ among => among, fun _ among => among, fun _ among => .inl among⟩

theorem Continues.trans (second : later.Continues next middle)
    (first : middle.Continues next earlier) : later.Continues next earlier where
  entered node among := second.entered node (first.entered node among)
  finished node among := second.finished node (first.finished node among)
  completed := by
    intro node among
    rcases second.completed node among with inMiddle | completed
    · rcases first.completed node inMiddle with inEarlier | ⟨isFinished, edges⟩
      · exact .inl inEarlier
      · exact .inr ⟨second.finished node isFinished,
          fun other isEdge => second.entered other (edges other isEdge)⟩
    · exact .inr completed

/-! ## Nodes not yet entered -/

variable [DecidableEq Node]

def unseen (trail : Trail Node) (nodes : List Node) : Nat :=
  nodes.countP fun node => node ∉ trail.entered

theorem Continues.unseen_le (continues : later.Continues next earlier) (nodes : List Node) :
    later.unseen nodes ≤ earlier.unseen nodes := by
  apply List.countP_mono_left
  intro node _ outside
  have notLater := of_decide_eq_true outside
  exact decide_eq_true fun inEarlier => notLater (continues.entered node inEarlier)

theorem unseen_enter_lt {trail : Trail Node} {nodes : List Node} {node : Node}
    (among : node ∈ nodes) (fresh : node ∉ trail.entered) :
    unseen ⟨trail.entered ++ [node], trail.finished⟩ nodes < trail.unseen nodes := by
  obtain ⟨before, after, rfl⟩ := List.append_of_mem among
  have fewer (others : List Node) :
      unseen ⟨trail.entered ++ [node], trail.finished⟩ others ≤ trail.unseen others := by
    apply List.countP_mono_left
    intro other _ outside
    have notEntered := of_decide_eq_true outside
    exact decide_eq_true fun inTrail => notEntered (List.mem_append_left _ inTrail)
  have beforeFewer := fewer before
  have afterFewer := fewer after
  have entered : node ∈ trail.entered ++ [node] :=
    List.mem_append_right _ (List.mem_singleton.mpr rfl)
  unfold unseen at beforeFewer afterFewer ⊢
  rw [List.countP_append, List.countP_append, List.countP_cons, List.countP_cons,
    if_neg (by simp only [entered, not_true, decide_false, Bool.false_eq_true, not_false_iff]),
    if_pos (by simp only [fresh, not_false_iff, decide_true])]
  omega

/-! ## Visits -/

theorem continues_foldl {step : Trail Node → Node → Trail Node} {sources : List Node} {fuel : Nat}
    (each : ∀ trail node, trail.unseen sources < fuel →
      (step trail node).Continues next trail ∧ node ∈ (step trail node).entered)
    (nodes : List Node) (trail : Trail Node) (enough : trail.unseen sources < fuel) :
    (nodes.foldl step trail).Continues next trail ∧
      ∀ node ∈ nodes, node ∈ (nodes.foldl step trail).entered := by
  induction nodes generalizing trail with
  | nil => exact ⟨.refl trail, List.forall_mem_nil _⟩
  | cons node rest inductionHypothesis =>
      obtain ⟨continues, isEntered⟩ := each trail node enough
      have stillEnough := Nat.lt_of_le_of_lt (continues.unseen_le sources) enough
      obtain ⟨further, others⟩ := inductionHypothesis (step trail node) stillEnough
      exact ⟨further.trans continues,
        List.forall_mem_cons.mpr ⟨further.entered node isEntered, others⟩⟩

/-- A visit that is deep enough for the nodes with edges that are left enters its node, and completes
every node that it enters. -/
theorem continues_visit {sources : List Node} (covers : ∀ node, next node ≠ [] → node ∈ sources) :
    ∀ (fuel : Nat) (trail : Trail Node) (node : Node), trail.unseen sources < fuel →
      (visit next fuel trail node).Continues next trail ∧
        node ∈ (visit next fuel trail node).entered := by
  intro fuel
  induction fuel with
  | zero => exact fun _ _ enough => absurd enough (Nat.not_lt_zero _)
  | succ fuel inductionHypothesis =>
      intro trail node enough
      rw [visit]
      split
      · rename_i inTrail
        exact ⟨.refl trail, inTrail⟩
      · rename_i fresh
        let entering : Trail Node := ⟨trail.entered ++ [node], trail.finished⟩
        let inner := (next node).foldl (visit next fuel) entering
        -- Only a node with edges needs a deeper walk, and entering it leaves one such node less.
        have walked : inner.Continues next entering ∧ ∀ other ∈ next node, other ∈ inner.entered := by
          by_cases leaf : next node = []
          · have unchanged : inner = entering := by
              simp only [inner, leaf, List.foldl_nil]
            rw [unchanged, leaf]
            exact ⟨.refl entering, List.forall_mem_nil _⟩
          · have fewer : entering.unseen sources < trail.unseen sources :=
              unseen_enter_lt (covers node leaf) fresh
            exact continues_foldl inductionHypothesis (next node) entering (by omega)
        obtain ⟨continues, edges⟩ := walked
        have nodeEntered : node ∈ inner.entered :=
          continues.entered node (List.mem_append_right _ (List.mem_singleton.mpr rfl))
        refine ⟨⟨?_, ?_, ?_⟩, nodeEntered⟩
        · exact fun other among => continues.entered other (List.mem_append_left _ among)
        · exact fun other among => List.mem_append_left _ (continues.finished other among)
        · intro other among
          rcases continues.completed other among with inEntering | ⟨isFinished, otherEdges⟩
          · rcases List.mem_append.mp inEntering with inTrail | isNode
            · exact .inl inTrail
            · cases List.mem_singleton.mp isNode
              exact .inr ⟨List.mem_append_right _ (List.mem_singleton.mpr rfl), edges⟩
          · exact .inr ⟨List.mem_append_left _ isFinished, otherEdges⟩

omit [DecidableEq Node] in
theorem entered_foldl_of_closed {step : Trail Node → Node → Trail Node} {holds : Node → Prop}
    (each : ∀ trail node, (∀ other ∈ trail.entered, holds other) → holds node →
      ∀ other ∈ (step trail node).entered, holds other)
    (nodes : List Node) (nodesHold : ∀ node ∈ nodes, holds node) (trail : Trail Node)
    (trailHolds : ∀ other ∈ trail.entered, holds other) :
    ∀ other ∈ (nodes.foldl step trail).entered, holds other := by
  induction nodes generalizing trail with
  | nil => exact trailHolds
  | cons node rest inductionHypothesis =>
      obtain ⟨nodeHolds, restHold⟩ := List.forall_mem_cons.mp nodesHold
      exact inductionHypothesis restHold (step trail node) (each trail node trailHolds nodeHolds)

theorem entered_visit_of_closed {holds : Node → Prop}
    (passed : ∀ node, holds node → ∀ other ∈ next node, holds other) (fuel : Nat) :
    ∀ (trail : Trail Node) (node : Node), (∀ other ∈ trail.entered, holds other) → holds node →
      ∀ other ∈ (visit next fuel trail node).entered, holds other := by
  induction fuel with
  | zero => exact fun _ _ trailHolds _ => trailHolds
  | succ fuel inductionHypothesis =>
      intro trail node trailHolds nodeHolds
      rw [visit]
      split
      · exact trailHolds
      · apply entered_foldl_of_closed inductionHypothesis (next node) (passed node nodeHolds)
        intro other among
        rcases List.mem_append.mp among with inTrail | isNode
        · exact trailHolds other inTrail
        · rw [List.mem_singleton.mp isNode]
          exact nodeHolds

/-! ## Walks -/

variable {roots : List Node} {node : Node}

theorem reachable_of_mem_entered {fuel : Nat} (entered : node ∈ (walk next fuel roots).entered) :
    Reachable next roots node := by
  have passed : ∀ node, Reachable next roots node → ∀ other ∈ next node, Reachable next roots other :=
    fun _ reached _ isEdge => .edge reached isEdge
  exact entered_foldl_of_closed (entered_visit_of_closed passed fuel) roots
    (fun _ isRoot => .root isRoot) start (List.forall_mem_nil _) node entered

theorem continues_walk {sources : List Node} (covers : ∀ node, next node ≠ [] → node ∈ sources)
    (roots : List Node) :
    (walk next (sources.length + 1) roots).Continues next start ∧
      ∀ root ∈ roots, root ∈ (walk next (sources.length + 1) roots).entered :=
  continues_foldl (continues_visit covers _) roots start (Nat.lt_succ_of_le List.countP_le_length)

/-- A walk that is deep enough for all nodes with edges enters what can be reached, and nothing
else. -/
theorem mem_entered_iff {sources : List Node} (covers : ∀ node, next node ≠ [] → node ∈ sources) :
    node ∈ (walk next (sources.length + 1) roots).entered ↔ Reachable next roots node := by
  constructor
  · exact reachable_of_mem_entered
  · intro reached
    obtain ⟨continues, rootsEntered⟩ := continues_walk covers roots
    induction reached with
    | root isRoot => exact rootsEntered _ isRoot
    | edge _ isEdge inductionHypothesis =>
        rcases continues.completed _ inductionHypothesis with inStart | ⟨_, edges⟩
        · cases inStart
        · exact edges _ isEdge

theorem mem_finished_of_entered {sources : List Node}
    (covers : ∀ node, next node ≠ [] → node ∈ sources)
    (entered : node ∈ (walk next (sources.length + 1) roots).entered) :
    node ∈ (walk next (sources.length + 1) roots).finished := by
  obtain ⟨continues, _⟩ := continues_walk covers roots
  rcases continues.completed node entered with inStart | ⟨isFinished, _⟩
  · cases inStart
  · exact isFinished

/-! ## No node twice -/

omit [DecidableEq Node] in
theorem nodup_entered_foldl {step : Trail Node → Node → Trail Node}
    (each : ∀ trail node, trail.entered.Nodup → (step trail node).entered.Nodup) (nodes : List Node)
    {trail : Trail Node} (distinct : trail.entered.Nodup) :
    (nodes.foldl step trail).entered.Nodup := by
  induction nodes generalizing trail with
  | nil => exact distinct
  | cons node rest inductionHypothesis => exact inductionHypothesis (each trail node distinct)

theorem nodup_entered_visit (fuel : Nat) :
    ∀ (trail : Trail Node) (node : Node), trail.entered.Nodup →
      (visit next fuel trail node).entered.Nodup := by
  induction fuel with
  | zero => exact fun _ _ distinct => distinct
  | succ fuel inductionHypothesis =>
      intro trail node distinct
      rw [visit]
      split
      · exact distinct
      · rename_i fresh
        have entering : (trail.entered ++ [node]).Nodup := by
          refine List.nodup_append.mpr ⟨distinct, List.pairwise_singleton _ _, ?_⟩
          intro other inTrail last isLast same
          rw [same, List.mem_singleton.mp isLast] at inTrail
          exact fresh inTrail
        exact nodup_entered_foldl inductionHypothesis (next node) entering

theorem nodup_entered_walk {fuel : Nat} : (walk next fuel roots).entered.Nodup :=
  nodup_entered_foldl (nodup_entered_visit fuel) roots List.nodup_nil

/-! ## The order of entering -/

omit [DecidableEq Node] in
theorem prefix_entered_foldl {step : Trail Node → Node → Trail Node}
    (each : ∀ trail node, trail.entered <+: (step trail node).entered) (nodes : List Node)
    (trail : Trail Node) : trail.entered <+: (nodes.foldl step trail).entered := by
  induction nodes generalizing trail with
  | nil => exact List.prefix_rfl
  | cons node rest inductionHypothesis =>
      exact (each trail node).trans (inductionHypothesis (step trail node))

theorem prefix_entered_visit (fuel : Nat) :
    ∀ (trail : Trail Node) (node : Node), trail.entered <+: (visit next fuel trail node).entered := by
  induction fuel with
  | zero => exact fun _ _ => List.prefix_rfl
  | succ fuel inductionHypothesis =>
      intro trail node
      rw [visit]
      split
      · exact List.prefix_rfl
      · exact (List.prefix_append _ _).trans
          (prefix_entered_foldl inductionHypothesis (next node) ⟨trail.entered ++ [node], trail.finished⟩)

theorem unseen_le_of_prefix {nodes : List Node} (continued : earlier.entered <+: later.entered) :
    later.unseen nodes ≤ earlier.unseen nodes := by
  apply List.countP_mono_left
  intro node _ outside
  have notLater := of_decide_eq_true outside
  exact decide_eq_true fun inEarlier => notLater (continued.subset inEarlier)

end TypedMatch.Trail
