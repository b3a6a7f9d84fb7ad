import TypedMatch.Proofs.Scheme.Reaching
import TypedMatch.Proofs.Ty.Rewriting

/-!
# Making a scheme variable by variable

A scheme can be made in one walk over its type.  What stands for a variable is noted when the variable is met:
a variable that stays free stands for itself, a chosen one gets the next bound variable, and the walk goes on
through its kind before its entry is written.  The walk goes on through the target of a linked variable, of
which nothing is noted.  That this walk ends is not plain, because it leaves the type for targets and kinds.
But where no links lead back it ends, whatever it would find beyond a number of calls one in another, and gives
what the scheme of a type is said to be.
-/

set_option autoImplicit false

namespace TypedMatch

/-- How far the making of a scheme has come: the store, what stands for the variables that have been met, and
the entries that have been written. -/
structure Closing where
  store : Store
  renamed : Table MetaVar SchemeVar
  quantified : List Quantified

namespace Closing

/-! ## The walk -/

/-- What stands for a variable, with the answers to the calls for other variables taken from elsewhere. -/
def findFrom (choose : FreeVar → Bool)
    (answer : Closing → MetaVar → Except Fault (Ty SchemeVar × Closing)) (state : Closing)
    (v : MetaVar) : Except Fault (Ty SchemeVar × Closing) :=
  match state.renamed.get? v with
  | some renamed => .ok (.var renamed, state)
  | none => do
      match ← state.store.cell v with
      | .linked target => target.rewrite answer state
      | .free record =>
          if choose record then do
            -- The variable is noted before its kind, which may mention it, is looked into.
            let (bound, grown) := state.store.newBound
            let entered := ⟨grown, state.renamed.set v (.bound bound), state.quantified⟩
            let (kind, inner) ← record.kind.rewrite answer entered
            return (.var (.bound bound), { inner with quantified := inner.quantified ++ [⟨bound, kind⟩] })
          else
            return (.var (.free v), { state with renamed := state.renamed.set v (.free v) })

/-- What stands for a variable, with the answers to calls deeper than some rounds taken from elsewhere. -/
def unfolded (choose : FreeVar → Bool)
    (beyond : Closing → MetaVar → Except Fault (Ty SchemeVar × Closing)) :
    Nat → Closing → MetaVar → Except Fault (Ty SchemeVar × Closing)
  | 0 => beyond
  | rounds + 1 => findFrom choose (unfolded choose beyond rounds)

def run (choose : FreeVar → Bool) (beyond : Closing → MetaVar → Except Fault (Ty SchemeVar × Closing))
    (rounds : Nat) (store : Store) (type : Ty MetaVar) : Except Fault (Scheme × Store) := do
  let (body, ended) ← type.rewrite (unfolded choose beyond rounds) ⟨store, .empty, []⟩
  return (⟨ended.quantified, body⟩, ended.store)

end Closing

namespace Store

variable {store : Store} {choose : FreeVar → Bool} {type : Ty MetaVar} {v : MetaVar}

/-! ## Trails -/

def entryFor (store : Store) (choose : FreeVar → Bool) (type : Ty MetaVar) (v : MetaVar) :
    Option Quantified :=
  (store.chosen? choose v).map fun record =>
    ⟨store.boundFor choose type v, store.closedKind choose type record.kind⟩

def chosenOf (store : Store) (choose : FreeVar → Bool) (vars : List MetaVar) : List MetaVar :=
  vars.filter fun v => (store.chosen? choose v).isSome

/-- The trail of a walk that goes on through the targets of variables, one after the other. -/
def walkOn (store : Store) (choose : FreeVar → Bool) (fuel : Nat) (vars : List MetaVar)
    (trail : Trail MetaVar) : Trail MetaVar :=
  (vars.flatMap fun v => (store.target v).leaves).foldl
    (Trail.visit (store.beyond choose) fuel) trail

def unseen (store : Store) (trail : Trail MetaVar) : Nat :=
  trail.unseen (store.cells.entries.map Prod.fst)

variable {fuel : Nat} {vars rest : List MetaVar} {trail : Trail MetaVar}

theorem prefix_walkOn : trail.entered <+: (store.walkOn choose fuel vars trail).entered :=
  Trail.prefix_entered_foldl (Trail.prefix_entered_visit fuel) _ trail

theorem walkOn_cons : store.walkOn choose fuel (v :: rest) trail
    = store.walkOn choose fuel rest (store.walkOn choose fuel [v] trail) := by
  simp only [walkOn, List.flatMap_cons, List.flatMap_nil, List.append_nil, List.foldl_append]

theorem walkOn_self (standsForItself : store.target v = .var v) :
    store.walkOn choose fuel [v] trail = Trail.visit (store.beyond choose) fuel trail v := by
  simp only [walkOn, List.flatMap_cons, List.flatMap_nil, List.append_nil, standsForItself, Ty.leaves,
    List.foldl_cons, List.foldl_nil]

theorem walkOn_linked (acyclic : store.Acyclic) {target : Ty MetaVar}
    (stored : store.cells.get? v = some (.linked target)) :
    store.walkOn choose fuel [v] trail = store.walkOn choose fuel target.leaves trail := by
  simp only [walkOn, List.flatMap_cons, List.flatMap_nil, List.append_nil,
    target_of_linked acyclic stored, leaves_zonk]

theorem visit_chosen {record : FreeVar} (isChosen : store.chosen? choose v = some record)
    (fresh : v ∉ trail.entered) :
    Trail.visit (store.beyond choose) (fuel + 1) trail v =
      let inner := store.walkOn choose fuel record.kind.leaves ⟨trail.entered ++ [v], trail.finished⟩
      ⟨inner.entered, inner.finished ++ [v]⟩ := by
  rw [Trail.visit, if_neg fresh, walkOn, beyond, isChosen]
  simp only [leaves_zonkKind]

theorem visit_not_chosen (notChosen : store.chosen? choose v = none) (fresh : v ∉ trail.entered) :
    Trail.visit (store.beyond choose) (fuel + 1) trail v
      = ⟨trail.entered ++ [v], trail.finished ++ [v]⟩ := by
  rw [Trail.visit, if_neg fresh, beyond, notChosen]
  rfl

theorem boundFor_of_prefix (fresh : v ∉ trail.entered)
    (isNext : trail.entered ++ [v] <+: (store.reach choose type).entered)
    (isChosen : (store.chosen? choose v).isSome = true) :
    v ∈ store.ownedBy choose type ∧
      store.boundFor choose type v
        = ⟨store.nextBound + (store.chosenOf choose trail.entered).length⟩ := by
  obtain ⟨later, split⟩ := isNext
  have owned : store.ownedBy choose type
      = store.chosenOf choose trail.entered ++ (v :: store.chosenOf choose later) := by
    rw [ownedBy, ← split]
    simp only [chosenOf, List.filter_append, List.filter_cons, isChosen, if_true,
      List.append_assoc, List.singleton_append]
  have notBefore : v ∉ store.chosenOf choose trail.entered :=
    fun among => fresh (List.mem_filter.mp among).1
  rw [boundFor, owned, List.idxOf_append_of_notMem notBefore, List.idxOf_cons_self, Nat.add_zero]
  exact ⟨List.mem_append_right _ (.head _), rfl⟩

end Store

/-! ## What the walk keeps -/

namespace Closing

/-- Whether the making of the scheme of a type has come as far as a trail. -/
structure Traces (store : Store) (choose : FreeVar → Bool) (type : Ty MetaVar) (state : Closing)
    (trail : Trail MetaVar) : Prop where
  counted : state.store
    = { store with nextBound := store.nextBound + (store.chosenOf choose trail.entered).length }
  renamed : ∀ v, state.renamed.get? v
    = if v ∈ trail.entered then some (store.closedVar choose type v) else none
  quantified : state.quantified = trail.finished.filterMap (store.entryFor choose type)
  free : ∀ v ∈ trail.entered, ∃ record, store.cells.get? v = some (.free record)

/-- Whether a walk with some variables still to come has come as far as a trail from which it will get to
another one, and has enough rounds left to get there. -/
def Heads (store : Store) (choose : FreeVar → Bool) (type : Ty MetaVar) (rank : MetaVar → Nat)
    (goal : Trail MetaVar) (fuel rounds : Nat) (vars : List MetaVar) (state : Closing) : Prop :=
  ∃ trail, state.Traces store choose type trail ∧ store.walkOn choose fuel vars trail = goal ∧
    store.unseen trail < fuel ∧
    ∀ v ∈ vars, store.unseen trail * (store.cells.size + 1) + store.below rank (rank v + 1) < rounds

variable {store : Store} {choose : FreeVar → Bool} {type : Ty MetaVar} {rank : MetaVar → Nat}
  {trail goal : Trail MetaVar} {fuel rounds : Nat} {v : MetaVar} {vars : List MetaVar} {state : Closing}

theorem Traces.note (traces : state.Traces store choose type trail) {record : FreeVar}
    (stored : store.cells.get? v = some (.free record)) {renamed : SchemeVar}
    (closed : store.closedVar choose type v = renamed) :
    (∀ w, (state.renamed.set v renamed).get? w
      = if w ∈ trail.entered ++ [v] then some (store.closedVar choose type w) else none) ∧
    ∀ w ∈ trail.entered ++ [v], ∃ record, store.cells.get? w = some (.free record) := by
  constructor
  · intro w
    rw [Table.get?_set, ← closed, traces.renamed]
    by_cases same : w = v
    · simp [same]
    · simp [same]
  · intro w among
    rcases List.mem_append.mp among with before | isNew
    · exact traces.free w before
    · rw [List.mem_singleton.mp isNew]
      exact ⟨record, stored⟩

theorem Traces.enter (traces : state.Traces store choose type trail) {record : FreeVar}
    (stored : store.cells.get? v = some (.free record)) (fresh : v ∉ trail.entered)
    (isNext : trail.entered ++ [v] <+: (store.reach choose type).entered) (chosen : choose record = true) :
    let bound := state.store.newBound
    bound.1 = store.boundFor choose type v ∧ store.closedVar choose type v = .bound bound.1 ∧
      Traces store choose type ⟨bound.2, state.renamed.set v (.bound bound.1), state.quantified⟩
        ⟨trail.entered ++ [v], trail.finished⟩ := by
  have isChosen := Store.chosen?_eq_some.mpr ⟨stored, chosen⟩
  obtain ⟨owned, number⟩ := Store.boundFor_of_prefix fresh isNext (by rw [isChosen]; rfl)
  have sameBound : state.store.newBound.1 = store.boundFor choose type v := by
    rw [number, Store.newBound, traces.counted]
  have closed : store.closedVar choose type v = .bound state.store.newBound.1 := by
    rw [Store.closedVar, if_pos owned, sameBound]
  obtain ⟨renamed, free⟩ := traces.note stored closed
  refine ⟨sameBound, closed, ?_, renamed, traces.quantified, free⟩
  · simp only [Store.newBound, traces.counted, Store.chosenOf, List.filter_append, List.filter_cons,
      isChosen, Option.isSome_some, if_true, List.filter_nil, List.length_append, List.length_singleton,
      Nat.add_assoc]

theorem Traces.leave (traces : state.Traces store choose type trail) {record : FreeVar}
    (isChosen : store.chosen? choose v = some record) :
    Traces store choose type
      { state with quantified := state.quantified ++
          [⟨store.boundFor choose type v, store.closedKind choose type record.kind⟩] }
      ⟨trail.entered, trail.finished ++ [v]⟩ := by
  refine ⟨traces.counted, traces.renamed, ?_, traces.free⟩
  simp only [traces.quantified, List.filterMap_append, List.filterMap_cons, List.filterMap_nil,
    Store.entryFor, isChosen, Option.map_some]

theorem Traces.pass (traces : state.Traces store choose type trail) {record : FreeVar}
    (stored : store.cells.get? v = some (.free record)) (notChosen : store.chosen? choose v = none) :
    store.closedVar choose type v = .free v ∧
      Traces store choose type { state with renamed := state.renamed.set v (.free v) }
        ⟨trail.entered ++ [v], trail.finished ++ [v]⟩ := by
  have notOwned : v ∉ store.ownedBy choose type := by
    intro owned
    obtain ⟨_, record, isChosen⟩ := Store.mem_ownedBy.mp owned
    rw [notChosen] at isChosen
    cases isChosen
  have closed : store.closedVar choose type v = .free v := if_neg notOwned
  obtain ⟨renamed, free⟩ := traces.note stored closed
  refine ⟨closed, ?_, renamed, ?_, free⟩
  · simp only [traces.counted, Store.chosenOf, List.filter_append, List.filter_cons, notChosen,
      Option.isSome_none, Bool.false_eq_true, if_false, List.filter_nil, List.append_nil]
  · simp only [traces.quantified, List.filterMap_append, List.filterMap_cons, List.filterMap_nil,
      Store.entryFor, notChosen, Option.map_none, List.append_nil]

theorem Traces.unknown (traces : state.Traces store choose type trail)
    (isNext : trail.entered ++ [v] <+: (store.reach choose type).entered)
    (unknown : store.cells.get? v = none) :
    store.settle (store.reach choose type).entered = .error (.unknownVar v) := by
  obtain ⟨later, split⟩ := isNext
  have before : trail.entered.findSome? store.unsettled? = none := by
    rw [List.findSome?_eq_none_iff]
    intro w among
    obtain ⟨record, stored⟩ := traces.free w among
    rw [Store.unsettled?, stored]
  have found : (store.reach choose type).entered.findSome? store.unsettled? = some (.unknownVar v) := by
    rw [← split, List.findSome?_append, List.findSome?_append, before]
    simp [Store.unsettled?, unknown]
  rw [Store.settle, found]

/-! ## One round -/

def FailsWith (store : Store) (choose : FreeVar → Bool) (type : Ty MetaVar) (fault : Fault) : Prop :=
  store.settle (store.reach choose type).entered = .error fault

def closedTarget (store : Store) (choose : FreeVar → Bool) (type : Ty MetaVar) (v : MetaVar) :
    Ty SchemeVar :=
  (store.target v).map (store.closedVar choose type)

/-- The answers to calls for other variables are right, on the way to any trail that the whole walk passes. -/
def Answers (store : Store) (choose : FreeVar → Bool) (type : Ty MetaVar) (rank : MetaVar → Nat)
    (rounds : Nat) (answer : Closing → MetaVar → Except Fault (Ty SchemeVar × Closing)) : Prop :=
  ∀ goal fuel, goal.entered <+: (store.reach choose type).entered →
    Ty.Hands answer (closedTarget store choose type) (Heads store choose type rank goal fuel rounds)
      (FailsWith store choose type)

variable {answer : Closing → MetaVar → Except Fault (Ty SchemeVar × Closing)}

theorem Heads.arrived (heads : Heads store choose type rank goal fuel rounds [] state) :
    state.Traces store choose type goal := by
  obtain ⟨trail, traces, rfl, _, _⟩ := heads
  exact traces

theorem bind_closedTarget (type other : Ty MetaVar) : other.bind (closedTarget store choose type)
    = (store.zonk other).map (store.closedVar choose type) := by
  rw [Store.zonk, Ty.map, Ty.bind_bind]
  rfl

theorem yields_linked (acyclic : store.Acyclic) (ranked : store.RankedBy rank)
    (answers : Answers store choose type rank rounds answer)
    (traces : state.Traces store choose type trail)
    (within : (store.walkOn choose fuel [v] trail).entered <+: (store.reach choose type).entered)
    (deep : store.unseen trail < fuel)
    (enough : store.unseen trail * (store.cells.size + 1) + store.below rank (rank v + 1) < rounds + 1)
    {target : Ty MetaVar} (stored : store.cells.get? v = some (.linked target)) :
    Yields (closedTarget store choose type v)
      (fun after : Closing => after.Traces store choose type (store.walkOn choose fuel [v] trail))
      (FailsWith store choose type) (target.rewrite answer state) := by
  have heads : Heads store choose type rank (store.walkOn choose fuel [v] trail) fuel rounds
      (target.leaves ++ []) state := by
    rw [List.append_nil]
    refine ⟨trail, traces, (Store.walkOn_linked acyclic stored).symm, deep, ?_⟩
    intro w occurs
    have lower : store.below rank (rank w + 1) < store.below rank (rank v + 1) :=
      Store.below_lt_below_succ stored (ranked stored w occurs)
    omega
  have same : closedTarget store choose type v = target.bind (closedTarget store choose type) := by
    rw [closedTarget, Store.target_of_linked acyclic stored, bind_closedTarget]
  rw [same]
  exact ((answers _ _ within).rewrite target [] state heads).imp fun _ => Heads.arrived

theorem yields_chosen (answers : Answers store choose type rank rounds answer)
    (traces : state.Traces store choose type trail) (fresh : v ∉ trail.entered)
    (within : (store.walkOn choose fuel [v] trail).entered <+: (store.reach choose type).entered)
    (deep : store.unseen trail < fuel)
    (enough : store.unseen trail * (store.cells.size + 1) + store.below rank (rank v + 1) < rounds + 1)
    {record : FreeVar} (stored : store.cells.get? v = some (.free record))
    (chosen : choose record = true) :
    let bound := state.store.newBound
    let entered : Closing := ⟨bound.2, state.renamed.set v (.bound bound.1), state.quantified⟩
    Yields (closedTarget store choose type v)
      (fun after : Closing => after.Traces store choose type (store.walkOn choose fuel [v] trail))
      (FailsWith store choose type) (do
        let (kind, inner) ← record.kind.rewrite answer entered
        return (.var (.bound bound.1),
          { inner with quantified := inner.quantified ++ [⟨bound.1, kind⟩] })) := by
  cases fuel with
  | zero => exact absurd deep (Nat.not_lt_zero _)
  | succ fuel =>
  have isChosen := Store.chosen?_eq_some.mpr ⟨stored, chosen⟩
  have itself := Store.target_of_free stored
  let entering : Trail MetaVar := ⟨trail.entered ++ [v], trail.finished⟩
  let inner := store.walkOn choose fuel record.kind.leaves entering
  rw [Store.walkOn_self itself, Store.visit_chosen isChosen fresh] at within ⊢
  have innerWithin : inner.entered <+: (store.reach choose type).entered := within
  obtain ⟨sameBound, closed, tracesEntering⟩ :=
    traces.enter stored fresh (Store.prefix_walkOn.trans innerWithin) chosen
  have fewer : store.unseen entering < store.unseen trail :=
    Trail.unseen_enter_lt (List.mem_map_of_mem (Store.mem_entries_of_get? stored)) fresh
  have heads : Heads store choose type rank inner fuel rounds record.kind.leaves
      ⟨state.store.newBound.2, state.renamed.set v (.bound state.store.newBound.1),
        state.quantified⟩ := by
    refine ⟨entering, tracesEntering, rfl, by omega, ?_⟩
    intro w _
    have shallow := store.below_le_size rank (rank w + 1)
    have room : (store.unseen entering + 1) * (store.cells.size + 1)
        ≤ store.unseen trail * (store.cells.size + 1) := Nat.mul_le_mul_right _ fewer
    rw [Nat.succ_mul] at room
    omega
  have sameKind : record.kind.bind (closedTarget store choose type)
      = store.closedKind choose type record.kind := by
    rw [Store.closedKind, Store.zonkKind, Kind.bind_bind]
    rfl
  refine (Kind.yields_rewrite (answers _ _ innerWithin) record.kind heads).bind fun after last => ?_
  refine ⟨?_, ?_⟩
  · rw [closedTarget, itself, Ty.map, Ty.bind, closed]
  · rw [sameKind, sameBound]
    exact last.arrived.leave isChosen

/-- With right answers for other variables, a round finds what stands for the target of a variable, and comes
as far as a walk on through that target. -/
theorem yields_findFrom (acyclic : store.Acyclic) (ranked : store.RankedBy rank)
    (answers : Answers store choose type rank rounds answer)
    (traces : state.Traces store choose type trail)
    (within : (store.walkOn choose fuel [v] trail).entered <+: (store.reach choose type).entered)
    (deep : store.unseen trail < fuel)
    (enough : store.unseen trail * (store.cells.size + 1) + store.below rank (rank v + 1) < rounds + 1) :
    Yields (closedTarget store choose type v)
      (fun after : Closing => after.Traces store choose type (store.walkOn choose fuel [v] trail))
      (FailsWith store choose type) (findFrom choose answer state v) := by
  have positive : fuel ≠ 0 := Nat.ne_of_gt (Nat.zero_lt_of_lt deep)
  obtain ⟨fewer, rfl⟩ := Nat.exists_eq_succ_of_ne_zero positive
  have sameCell : state.store.cell v = store.cell v := by
    rw [traces.counted]
    rfl
  rw [findFrom, traces.renamed, sameCell, Store.cell]
  by_cases met : v ∈ trail.entered
  · obtain ⟨record, stored⟩ := traces.free v met
    have itself := Store.target_of_free stored
    rw [if_pos met, closedTarget, itself, Store.walkOn_self itself, Trail.visit, if_pos met]
    exact ⟨rfl, traces⟩
  rw [if_neg met]
  cases stored : store.cells.get? v with
  | none =>
      have notChosen : store.chosen? choose v = none := by
        rw [Store.chosen?, stored]
      have itself : store.target v = .var v := by
        apply Store.target_of_not_linked
        intro target linked
        rw [stored] at linked
        cases linked
      rw [Store.walkOn_self itself, Store.visit_not_chosen notChosen met] at within
      exact traces.unknown within stored
  | some cell =>
      cases cell with
      | linked target => exact yields_linked acyclic ranked answers traces within deep enough stored
      | free record =>
          by_cases chosen : choose record = true
          · have found := yields_chosen answers traces met within deep enough stored chosen
            simpa only [bind, Except.bind, chosen, if_true] using found
          · have notChosen : store.chosen? choose v = none := by
              rw [Store.chosen?, stored]
              exact if_neg chosen
            have itself := Store.target_of_free stored
            obtain ⟨closed, passed⟩ := traces.pass stored notChosen
            rw [Store.walkOn_self itself, Store.visit_not_chosen notChosen met, closedTarget, itself]
            simp only [bind, Except.bind, chosen]
            exact ⟨by rw [Ty.map, Ty.bind, closed], passed⟩

/-! ## All rounds -/

theorem answers_unfolded (acyclic : store.Acyclic) (ranked : store.RankedBy rank)
    (beyond : Closing → MetaVar → Except Fault (Ty SchemeVar × Closing)) (rounds : Nat) :
    Answers store choose type rank rounds (unfolded choose beyond rounds) := by
  induction rounds with
  | zero =>
      rintro goal fuel within v rest state ⟨trail, _, _, _, enough⟩
      exact absurd (enough v (.head _)) (Nat.not_lt_zero _)
  | succ rounds inductionHypothesis =>
      rintro goal fuel within v rest state ⟨trail, traces, rfl, deep, enough⟩
      rw [Store.walkOn_cons] at within ⊢
      have withinFirst := Store.prefix_walkOn.trans within
      refine (yields_findFrom acyclic ranked inductionHypothesis traces withinFirst deep
        (enough v (.head _))).imp ?_
      intro after tracesAfter
      have fewer : store.unseen (store.walkOn choose fuel [v] trail) ≤ store.unseen trail :=
        Trail.unseen_le_of_prefix Store.prefix_walkOn
      refine ⟨_, tracesAfter, rfl, by omega, ?_⟩
      intro w among
      have enoughFor := enough w (.tail _ among)
      have room := Nat.mul_le_mul_right (store.cells.size + 1) fewer
      omega

/-- Where no links lead back, the walk makes the scheme of a type, or fails as it does, whatever it would
find beyond some number of rounds. -/
theorem run_eq_close (acyclic : store.Acyclic) (choose : FreeVar → Bool) (type : Ty MetaVar) :
    ∃ rounds, ∀ beyond, run choose beyond rounds store type = store.close choose type := by
  obtain ⟨rank, ranked⟩ := id acyclic
  let start : Closing := ⟨store, .empty, []⟩
  let sources := store.cells.entries.map Prod.fst
  refine ⟨store.unseen .start * (store.cells.size + 1) + store.cells.size + 1, fun beyond => ?_⟩
  have reached : store.walkOn choose (sources.length + 1) (type.leaves ++ []) .start
      = store.reach choose type := by
    rw [Store.reach_eq, Store.walkOn, List.append_nil, Store.leaves_zonk]
    rfl
  have heads : Heads store choose type rank (store.reach choose type) (sources.length + 1)
      (store.unseen .start * (store.cells.size + 1) + store.cells.size + 1) (type.leaves ++ []) start := by
    refine ⟨.start, ⟨rfl, fun _ => rfl, rfl, List.forall_mem_nil _⟩, reached, ?_, ?_⟩
    · exact Nat.lt_succ_of_le List.countP_le_length
    · intro w _
      have shallow := store.below_le_size rank (rank w + 1)
      omega
  have yields := (answers_unfolded acyclic ranked beyond _ _ _ List.prefix_rfl).rewrite type [] start heads
  rw [run]
  cases rewritten : type.rewrite (unfolded choose beyond _) start with
  | error fault =>
      rw [rewritten] at yields
      have fails : store.settle (store.reach choose type).entered = .error fault := yields
      rw [Store.close, fails]
      rfl
  | ok outcome =>
      rw [rewritten] at yields
      obtain ⟨body, ended⟩ := outcome
      obtain ⟨rfl, arrives⟩ := yields
      have traces := arrives.arrived
      have free (v : MetaVar) (reaches : store.Reaches choose type v) :
          ∃ record, store.cells.get? v = some (.free record) :=
        traces.free v (Store.mem_entered_reach.mpr reaches)
      rw [Store.close_eq_of_free free]
      simp only [bind, Except.bind, pure, Except.pure, traces.quantified, traces.counted,
        bind_closedTarget]
      rfl

end Closing

end TypedMatch
