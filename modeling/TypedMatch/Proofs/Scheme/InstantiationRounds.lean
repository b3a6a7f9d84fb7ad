import TypedMatch.Proofs.Scheme.Instantiation
import TypedMatch.Proofs.Ty.Rewriting

/-!
# Instantiating variable by variable

A scheme can be instantiated in one walk over its body.  When an owned variable is met for which there is no
type yet, a new variable is minted and noted for it, and only then does the walk go on through the kind of the
owned variable, which the new one gets in the end.  The walk leaves the body for kinds, which may mention each
other in circles and variables that have no entry.  Still it ends for every scheme, whatever it would find
beyond a number of calls one in another, because every kind is gone through once.
-/

set_option autoImplicit false

namespace TypedMatch

/-- How far an instantiation has come: the store, and the types for owned variables, given and new ones. -/
structure Instantiating where
  store : Store
  filled : List (BoundVar × Ty MetaVar)

/-- Whether two stores have minted the same and know the same of every variable. -/
structure Store.Alike (store other : Store) : Prop where
  nextCon : store.nextCon = other.nextCon
  nextVar : store.nextVar = other.nextVar
  nextBound : store.nextBound = other.nextBound
  cells : ∀ v, store.cells.get? v = other.cells.get? v

namespace Instantiating

/-! ## The walk -/

/-- The type for a variable of a scheme, with the answers to the calls for other variables taken from
elsewhere. -/
def findFrom (level : Level) (quantification : Quantification) (scheme : Scheme)
    (answer : Instantiating → SchemeVar → Except Fault (Ty MetaVar × Instantiating))
    (state : Instantiating) : SchemeVar → Except Fault (Ty MetaVar × Instantiating)
  | .free v => .ok (.var v, state)
  | .bound param =>
      match state.filled.lookup param with
      | some type => .ok (type, state)
      | none =>
          -- The variable is noted before the kind, which may mention the same owned one, is looked into.
          let (fresh, grown) := state.store.newVar .any quantification level
          let entered := ⟨grown, (param, .var fresh) :: state.filled⟩
          match scheme.find? param with
          | none => .ok (.var fresh, entered)
          | some entry => do
              let (kind, inner) ← entry.kind.rewrite answer entered
              return (.var fresh, { inner with store := inner.store.constrain fresh kind })

/-- The type for a variable, with the answers to calls deeper than some rounds taken from elsewhere. -/
def unfolded (level : Level) (quantification : Quantification) (scheme : Scheme)
    (beyond : Instantiating → SchemeVar → Except Fault (Ty MetaVar × Instantiating)) :
    Nat → Instantiating → SchemeVar → Except Fault (Ty MetaVar × Instantiating)
  | 0 => beyond
  | rounds + 1 => findFrom level quantification scheme (unfolded level quantification scheme beyond rounds)

def run (level : Level) (quantification : Quantification)
    (beyond : Instantiating → SchemeVar → Except Fault (Ty MetaVar × Instantiating)) (rounds : Nat)
    (store : Store) (given : List (BoundVar × Ty MetaVar)) (scheme : Scheme) :
    Except Fault (Ty MetaVar × Store) := do
  let (type, ended) ← scheme.body.rewrite (unfolded level quantification scheme beyond rounds) ⟨store, given⟩
  return (type, ended.store)

/-! ## Trails -/

def next (scheme : Scheme) (given : List (BoundVar × Ty MetaVar)) (param : BoundVar) : List BoundVar :=
  Store.unfilled given (scheme.kindOf param).leaves

def walkOn (scheme : Scheme) (given : List (BoundVar × Ty MetaVar)) (rounds : Nat)
    (vars : List SchemeVar) (trail : Trail BoundVar) : Trail BoundVar :=
  (Store.unfilled given vars).foldl (Trail.visit (next scheme given) rounds) trail

def unseen (scheme : Scheme) (trail : Trail BoundVar) : Nat :=
  trail.unseen (scheme.quantified.map Quantified.var)

def lastKind (store : Store) (given : List (BoundVar × Ty MetaVar)) (scheme : Scheme) (param : BoundVar) :
    Kind MetaVar :=
  (scheme.kindOf param).bind (store.instanceOf (Store.pending scheme given) given)

/-- Whether an instantiation has come as far as a trail. -/
structure Traces (store : Store) (level : Level) (quantification : Quantification)
    (given : List (BoundVar × Ty MetaVar)) (scheme : Scheme) (state : Instantiating)
    (trail : Trail BoundVar) : Prop where
  nextCon : state.store.nextCon = store.nextCon
  nextBound : state.store.nextBound = store.nextBound
  nextVar : state.store.nextVar = store.nextVar + trail.entered.length
  filled : ∀ param, state.filled.lookup param = (given.lookup param).or
    (if param ∈ trail.entered then some (.var (store.instanceVar given scheme param)) else none)
  minted : ∀ param ∈ trail.entered,
    state.store.cells.get? (store.instanceVar given scheme param) = some (.free
      { var := store.instanceVar given scheme param
        kind := if param ∈ trail.finished then lastKind store given scheme param else .any
        quantification := quantification
        level := level })
  kept : ∀ v, (∀ param ∈ trail.entered, v ≠ store.instanceVar given scheme param) →
    state.store.cells.get? v = store.cells.get? v
  finished : ∀ param ∈ trail.finished, param ∈ trail.entered

/-- Whether a walk with some variables still to come has come as far as a trail from which it will get to
another one, and has enough rounds left to get there. -/
def Heads (store : Store) (level : Level) (quantification : Quantification)
    (given : List (BoundVar × Ty MetaVar)) (scheme : Scheme) (goal : Trail BoundVar) (rounds : Nat)
    (vars : List SchemeVar) (state : Instantiating) : Prop :=
  ∃ trail, state.Traces store level quantification given scheme trail ∧
    walkOn scheme given rounds vars trail = goal ∧ unseen scheme trail < rounds

variable {store : Store} {level : Level} {quantification : Quantification}
  {given : List (BoundVar × Ty MetaVar)} {scheme : Scheme} {state : Instantiating}
  {trail goal : Trail BoundVar} {rounds : Nat} {param : BoundVar} {v : SchemeVar} {vars : List SchemeVar}

theorem Heads.arrived (heads : Heads store level quantification given scheme goal rounds [] state) :
    state.Traces store level quantification given scheme goal := by
  obtain ⟨trail, traces, rfl, _⟩ := heads
  exact traces

theorem prefix_walkOn : trail.entered <+: (walkOn scheme given rounds vars trail).entered :=
  Trail.prefix_entered_foldl (Trail.prefix_entered_visit rounds) _ trail

theorem walkOn_cons : walkOn scheme given rounds (v :: vars) trail
    = walkOn scheme given rounds vars (walkOn scheme given rounds [v] trail) := by
  have split : Store.unfilled given (v :: vars)
      = Store.unfilled given [v] ++ Store.unfilled given vars := by
    cases v with
    | free v => rfl
    | bound param =>
        simp only [Store.unfilled, List.filterMap_cons, SchemeVar.bound?, List.filterMap_nil, List.filter_cons,
          List.filter_nil]
        split <;> rfl
  rw [walkOn, split, List.foldl_append]
  rfl

theorem walkOn_given {type : Ty MetaVar} (isGiven : given.lookup param = some type) :
    walkOn scheme given rounds [.bound param] trail = trail := by
  simp [walkOn, Store.unfilled, SchemeVar.bound?, isGiven]

theorem walkOn_missing (missing : given.lookup param = none) :
    walkOn scheme given rounds [.bound param] trail
      = Trail.visit (next scheme given) rounds trail param := by
  simp [walkOn, Store.unfilled, SchemeVar.bound?, missing]

theorem visit_fresh (fresh : param ∉ trail.entered) :
    Trail.visit (next scheme given) (rounds + 1) trail param =
      let inner := walkOn scheme given rounds (scheme.kindOf param).leaves
        ⟨trail.entered ++ [param], trail.finished⟩
      ⟨inner.entered, inner.finished ++ [param]⟩ := by
  rw [Trail.visit, if_neg fresh]
  rfl

theorem mem_vars_of_find {entry : Quantified} (found : scheme.find? param = some entry) :
    param ∈ scheme.quantified.map Quantified.var := by
  have isFor := List.find?_some found
  rw [← eq_of_beq isFor]
  exact List.mem_map_of_mem (List.mem_of_find?_eq_some found)

theorem mem_vars_of_next (param : BoundVar) (hasEdges : next scheme given param ≠ []) :
    param ∈ scheme.quantified.map Quantified.var := by
  cases found : scheme.find? param with
  | some entry => exact mem_vars_of_find found
  | none =>
      rw [next, Scheme.kindOf, found] at hasEdges
      exact absurd rfl hasEdges

theorem instanceVar_of_prefix (fresh : param ∉ trail.entered)
    (isNext : trail.entered ++ [param] <+: Store.pending scheme given) :
    store.instanceVar given scheme param = ⟨store.nextVar + trail.entered.length⟩ := by
  obtain ⟨later, split⟩ := isNext
  rw [Store.instanceVar, ← split, List.append_assoc, List.idxOf_append_of_notMem fresh,
    List.singleton_append, List.idxOf_cons_self, Nat.add_zero]

/-! ## What the walk keeps -/

theorem Traces.enter (traces : state.Traces store level quantification given scheme trail)
    (missing : given.lookup param = none) (fresh : param ∉ trail.entered)
    (isNext : trail.entered ++ [param] <+: Store.pending scheme given) :
    let minted := state.store.newVar .any quantification level
    minted.1 = store.instanceVar given scheme param ∧
      Traces store level quantification given scheme ⟨minted.2, (param, .var minted.1) :: state.filled⟩
        ⟨trail.entered ++ [param], trail.finished⟩ := by
  have number : store.instanceVar given scheme param = _ := instanceVar_of_prefix fresh isNext
  have isPending (other : BoundVar) (among : other ∈ trail.entered ++ [param]) :
      other ∈ Store.pending scheme given := isNext.subset among
  have isLast : param ∈ trail.entered ++ [param] := List.mem_append_right _ (.head _)
  have sameVar : (state.store.newVar .any quantification level).1 = store.instanceVar given scheme param := by
    rw [number, Store.newVar, traces.nextVar]
  have different (other : BoundVar) (among : other ∈ trail.entered) :
      store.instanceVar given scheme other ≠ store.instanceVar given scheme param := by
    intro same
    rw [Store.instanceVar_inj (isPending other (List.mem_append_left _ among)) same] at among
    exact fresh among
  have written (v : MetaVar) : (state.store.newVar .any quantification level).2.cells.get? v
      = if v = store.instanceVar given scheme param
        then some (.free ⟨store.instanceVar given scheme param, .any, quantification, level⟩)
        else state.store.cells.get? v := by
    rw [Store.get?_cells_newVar, number, traces.nextVar]
  refine ⟨sameVar, traces.nextCon, traces.nextBound, ?_, ?_, ?_, ?_, ?_⟩
  · rw [List.length_append, List.length_singleton, ← Nat.add_assoc, ← traces.nextVar]
    rfl
  · intro other
    rw [List.lookup_cons, traces.filled, sameVar]
    by_cases same : other = param
    · simp [same, missing]
    · simp [same, beq_eq_false_iff_ne.mpr same]
  · intro other among
    rw [written]
    rcases List.mem_append.mp among with before | isNew
    · rw [if_neg (different other before), traces.minted other before]
    · have unfinished : param ∉ trail.finished := fun done => fresh (traces.finished param done)
      rw [List.mem_singleton.mp isNew, if_pos rfl, if_neg unfinished]
  · intro v outside
    rw [written, if_neg (outside param isLast)]
    exact traces.kept v fun other among => outside other (List.mem_append_left _ among)
  · exact fun other done => List.mem_append_left _ (traces.finished other done)

theorem Traces.leave (traces : state.Traces store level quantification given scheme trail)
    (among : param ∈ trail.entered) (pending : ∀ other ∈ trail.entered, other ∈ Store.pending scheme given) :
    Traces store level quantification given scheme
      ⟨state.store.constrain (store.instanceVar given scheme param) (lastKind store given scheme param),
        state.filled⟩
      ⟨trail.entered, trail.finished ++ [param]⟩ := by
  have stored := traces.minted param among
  let constrained := state.store.constrain (store.instanceVar given scheme param)
    (lastKind store given scheme param)
  have counters : constrained.nextCon = state.store.nextCon ∧
      constrained.nextBound = state.store.nextBound ∧ constrained.nextVar = state.store.nextVar := by
    simp only [constrained, Store.constrain, stored, and_self]
  have written (v : MetaVar) : constrained.cells.get? v
      = if v = store.instanceVar given scheme param
        then some (.free ⟨store.instanceVar given scheme param, lastKind store given scheme param,
          quantification, level⟩)
        else state.store.cells.get? v := by
    simp only [constrained, Store.constrain, stored, Table.get?_set]
  obtain ⟨sameCon, sameBound, sameVar⟩ := counters
  refine ⟨sameCon.trans traces.nextCon, sameBound.trans traces.nextBound, sameVar.trans traces.nextVar,
    traces.filled, ?_, ?_, ?_⟩
  · intro other otherAmong
    rw [written]
    by_cases same : other = param
    · rw [same, if_pos rfl, if_pos (List.mem_append_right _ (.head _))]
    · have different : store.instanceVar given scheme other ≠ store.instanceVar given scheme param :=
        fun sameVar => same (Store.instanceVar_inj (pending other otherAmong) sameVar)
      rw [if_neg different, traces.minted other otherAmong]
      simp only [List.mem_append, List.mem_singleton, same, or_false]
  · intro v outside
    rw [written, if_neg (outside param among)]
    exact traces.kept v outside
  · intro other done
    rcases List.mem_append.mp done with before | isLast
    · exact traces.finished other before
    · rw [List.mem_singleton.mp isLast]
      exact among

theorem Traces.leave_any (traces : state.Traces store level quantification given scheme trail)
    (among : param ∈ trail.entered) (unconstrained : lastKind store given scheme param = .any) :
    Traces store level quantification given scheme state ⟨trail.entered, trail.finished ++ [param]⟩ := by
  refine ⟨traces.nextCon, traces.nextBound, traces.nextVar, traces.filled, ?_, traces.kept, ?_⟩
  · intro other otherAmong
    rw [traces.minted other otherAmong]
    by_cases same : other = param
    · simp [same, unconstrained]
    · simp [same]
  · intro other done
    rcases List.mem_append.mp done with before | isLast
    · exact traces.finished other before
    · rw [List.mem_singleton.mp isLast]
      exact among

/-! ## One round -/

def instanceType (store : Store) (given : List (BoundVar × Ty MetaVar)) (scheme : Scheme)
    (v : SchemeVar) : Ty MetaVar :=
  store.instanceOf (Store.pending scheme given) given v

/-- The answers to calls for other variables are right, on the way to any trail that the whole walk passes. -/
def Answers (store : Store) (level : Level) (quantification : Quantification)
    (given : List (BoundVar × Ty MetaVar)) (scheme : Scheme) (rounds : Nat)
    (answer : Instantiating → SchemeVar → Except Fault (Ty MetaVar × Instantiating)) : Prop :=
  ∀ goal, goal.entered <+: Store.pending scheme given →
    Ty.Hands answer (instanceType store given scheme)
      (Heads store level quantification given scheme goal rounds) (fun _ => False)

variable {answer : Instantiating → SchemeVar → Except Fault (Ty MetaVar × Instantiating)}

theorem yields_missing (answers : Answers store level quantification given scheme rounds answer)
    (traces : state.Traces store level quantification given scheme trail)
    (missing : given.lookup param = none) (fresh : param ∉ trail.entered)
    (within : (walkOn scheme given (rounds + 1) [.bound param] trail).entered
      <+: Store.pending scheme given)
    (deep : unseen scheme trail < rounds + 1) :
    Yields (.var (store.instanceVar given scheme param))
      (fun after : Instantiating => after.Traces store level quantification given scheme
        (walkOn scheme given (rounds + 1) [.bound param] trail))
      (fun _ => False) (findFrom level quantification scheme answer state (.bound param)) := by
  let entering : Trail BoundVar := ⟨trail.entered ++ [param], trail.finished⟩
  let inner := walkOn scheme given rounds (scheme.kindOf param).leaves entering
  rw [walkOn_missing missing, visit_fresh fresh] at within ⊢
  have entersWithin : entering.entered <+: inner.entered := prefix_walkOn
  obtain ⟨sameVar, tracesEntering⟩ := traces.enter missing fresh (entersWithin.trans within)
  have among : param ∈ inner.entered := entersWithin.subset (List.mem_append_right _ (.head _))
  have notFilled : state.filled.lookup param = none := by
    rw [traces.filled, missing, if_neg fresh]
    rfl
  rw [findFrom, notFilled]
  cases found : scheme.find? param with
  | none =>
      have anyKind : scheme.kindOf param = .any := by
        rw [Scheme.kindOf, found]
      have stays : inner = entering := by
        simp only [inner, anyKind]
        rfl
      have left := tracesEntering.leave_any (List.mem_append_right _ (.head _))
        (by rw [lastKind, anyKind]; rfl)
      change Traces store level quantification given scheme _ ⟨entering.entered, _⟩ at left
      refine ⟨congrArg Ty.var sameVar, ?_⟩
      change Traces store level quantification given scheme _ ⟨inner.entered, inner.finished ++ [param]⟩
      rw [stays]
      exact left
  | some entry =>
      have sameKind : scheme.kindOf param = entry.kind := by
        rw [Scheme.kindOf, found]
      have fewer : unseen scheme entering < unseen scheme trail :=
        Trail.unseen_enter_lt (mem_vars_of_find found) fresh
      have heads : Heads store level quantification given scheme inner rounds entry.kind.leaves
          ⟨(state.store.newVar .any quantification level).2,
            (param, .var (state.store.newVar .any quantification level).1) :: state.filled⟩ :=
        ⟨entering, tracesEntering, by rw [← sameKind], by omega⟩
      refine (Kind.yields_rewrite (answers inner within) entry.kind heads).bind fun after last => ?_
      have left := last.arrived.leave among within.subset
      refine ⟨congrArg Ty.var sameVar, ?_⟩
      rw [lastKind, sameKind, ← sameVar] at left
      exact left

theorem yields_findFrom (answers : Answers store level quantification given scheme rounds answer)
    (traces : state.Traces store level quantification given scheme trail)
    (within : (walkOn scheme given (rounds + 1) [v] trail).entered <+: Store.pending scheme given)
    (deep : unseen scheme trail < rounds + 1) :
    Yields (instanceType store given scheme v)
      (fun after : Instantiating => after.Traces store level quantification given scheme
        (walkOn scheme given (rounds + 1) [v] trail))
      (fun _ => False) (findFrom level quantification scheme answer state v) := by
  cases v with
  | free v => exact ⟨rfl, traces⟩
  | bound param =>
      cases isGiven : given.lookup param with
      | some type =>
          have isFilled : state.filled.lookup param = some type := by
            rw [traces.filled, isGiven, Option.some_or]
          rw [findFrom, isFilled, walkOn_given isGiven, instanceType, Store.instanceOf, isGiven]
          exact ⟨rfl, traces⟩
      | none =>
          have instanceEq : instanceType store given scheme (.bound param)
              = .var (store.instanceVar given scheme param) := by
            rw [instanceType, Store.instanceOf, isGiven]
            rfl
          rw [instanceEq]
          by_cases met : param ∈ trail.entered
          · have isFilled : state.filled.lookup param
                = some (.var (store.instanceVar given scheme param)) := by
              rw [traces.filled, isGiven, if_pos met, Option.none_or]
            rw [findFrom, isFilled, walkOn_missing isGiven, Trail.visit, if_pos met]
            exact ⟨rfl, traces⟩
          · exact yields_missing answers traces isGiven met within deep

/-! ## All rounds -/

theorem answers_unfolded
    (beyond : Instantiating → SchemeVar → Except Fault (Ty MetaVar × Instantiating)) (rounds : Nat) :
    Answers store level quantification given scheme rounds
      (unfolded level quantification scheme beyond rounds) := by
  induction rounds with
  | zero =>
      rintro goal within v rest state ⟨trail, _, _, deep⟩
      exact absurd deep (Nat.not_lt_zero _)
  | succ rounds inductionHypothesis =>
      rintro goal within v rest state ⟨trail, traces, rfl, deep⟩
      rw [walkOn_cons] at within ⊢
      have withinFirst := prefix_walkOn.trans within
      refine (yields_findFrom inductionHypothesis traces withinFirst deep).imp ?_
      intro after tracesAfter
      have fewer : unseen scheme (walkOn scheme given (rounds + 1) [v] trail) ≤ unseen scheme trail :=
        Trail.unseen_le_of_prefix prefix_walkOn
      exact ⟨_, tracesAfter, rfl, by omega⟩

/-- A walk that has entered and finished all owned variables without a given type has done what an
instantiation does. -/
theorem Traces.alike (traces : state.Traces store level quantification given scheme goal)
    (entered : goal.entered = Store.pending scheme given)
    (completed : ∀ param ∈ goal.entered, param ∈ goal.finished) :
    state.store.Alike (store.instantiateWith level quantification given scheme).2 := by
  have extension := store.instantiateWith_extends level quantification given scheme
  refine ⟨?_, ?_, ?_, ?_⟩
  · rw [traces.nextCon, extension.nextCon_eq]
  · rw [traces.nextVar, entered, Store.nextVar_instantiateWith]
  · rw [traces.nextBound, extension.nextBound_eq]
  · intro v
    rcases store.exists_instanceVar_or_kept level quantification given scheme v with
      ⟨param, isPending, rfl⟩ | ⟨outside, kept⟩
    · have among : param ∈ goal.entered := entered ▸ isPending
      rw [traces.minted param among, if_pos (completed param among),
        Store.get?_instanceVar store level quantification isPending]
      rfl
    · rw [kept]
      apply traces.kept
      rintro param among rfl
      rw [entered] at among
      have low := store.instanceVar_lt among
      have high : store.nextVar ≤ (store.instanceVar given scheme param).number := Nat.le_add_right _ _
      omega

/-- For every scheme the walk makes the instance and takes the store to where it is with all new variables,
whatever it would find beyond some number of rounds. -/
theorem run_eq_instantiateWith (store : Store) (level : Level) (quantification : Quantification)
    (given : List (BoundVar × Ty MetaVar)) (scheme : Scheme) :
    ∃ rounds, ∀ beyond, ∃ grown,
      run level quantification beyond rounds store given scheme
        = .ok ((store.instantiateWith level quantification given scheme).1, grown) ∧
      grown.Alike (store.instantiateWith level quantification given scheme).2 := by
  let sources := scheme.quantified.map Quantified.var
  let goal := Trail.walk (next scheme given) (sources.length + 1) (Store.unfilled given scheme.body.leaves)
  let start : Instantiating := ⟨store, given⟩
  have entered : goal.entered = Store.pending scheme given := by
    simp only [goal, sources, List.length_map]
    rfl
  refine ⟨sources.length + 1, fun beyond => ?_⟩
  have initially : start.Traces store level quantification given scheme .start :=
    ⟨rfl, rfl, rfl, fun _ => Option.or_none.symm, List.forall_mem_nil _, fun _ _ => rfl,
      List.forall_mem_nil _⟩
  have heads : Heads store level quantification given scheme goal (sources.length + 1)
      (scheme.body.leaves ++ []) start := by
    rw [List.append_nil]
    exact ⟨.start, initially, rfl, Nat.lt_succ_of_le List.countP_le_length⟩
  have within : goal.entered <+: Store.pending scheme given := entered ▸ List.prefix_rfl
  have yields := (answers_unfolded beyond _ goal within).rewrite scheme.body [] start heads
  rw [run]
  cases rewritten : scheme.body.rewrite (unfolded level quantification scheme beyond _) start with
  | error fault =>
      rw [rewritten] at yields
      exact yields.elim
  | ok outcome =>
      rw [rewritten] at yields
      obtain ⟨type, ended⟩ := outcome
      obtain ⟨rfl, arrives⟩ := yields
      have completed (param : BoundVar) (among : param ∈ goal.entered) : param ∈ goal.finished :=
        Trail.mem_finished_of_entered mem_vars_of_next among
      exact ⟨ended.store, rfl, arrives.arrived.alike entered completed⟩

end Instantiating

end TypedMatch
