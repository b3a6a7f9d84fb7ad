import TypedMatch.Coverage.Check
import TypedMatch.Proofs.Environment.Expand
import TypedMatch.Proofs.Pattern.Chains
import TypedMatch.Proofs.Store.Coherent

/-!
# The faults of a check

`Environment.Explains` says of every fault that a check announces what must be wrong for it: a template with
too few or too many types, an alias without a body, a type without constructors, a constructor that the type
does not have.  A check of rows, whatever they are and whatever types the slots have, succeeds, is stopped by
such a fault, or meets links or aliases that lead back to themselves.  A check of a match may also be stopped
by a pattern that makes no sense, and by nothing else.
-/

set_option autoImplicit false

namespace TypedMatch

/-- What is wrong if a check is stopped by a fault.  Faults that no check announces are never explained. -/
def Environment.Explains (env : Environment) : Fault → Prop
  | .unknownVar _ | .noHeads _ => True
  | .argumentCount expected given => expected ≠ given
  | .tupleLength components patterns => patterns ≠ components
  | .undefinedAlias con => env.abbreviates con = true ∧ env.body? con = none
  | .notVariant con => env.constructors? con = none
  | .unknownConstructor name con => ∃ constructors, env.constructors? con = some constructors ∧
      ∀ constructor ∈ constructors, constructor.name ≠ name
  | _ => False

/-- Whether a fault may stop a check of rows.  Links or aliases that lead back to themselves are no fault
of the rows: with them there is no end to the check. -/
def Environment.Stops (env : Environment) (fault : Fault) : Prop :=
  env.Explains fault ∨ fault = .endless

variable {env : Environment} {level : Level} {store : Store}

/-! ## Types -/

theorem Store.unfoldWithin_failsBy (fuel : Nat) (type : Ty MetaVar) :
    FailsBy env.Stops (store.unfoldWithin fuel type) := by
  fun_induction unfoldWithin store fuel type with
  | case1 fuel type v isVar missing => exact .inl trivial
  | case2 fuel type v isVar record stored => exact .ok _
  | case3 type v isVar target stored => exact .inr rfl
  | case4 type v isVar target stored fuel inductionHypothesis => exact inductionHypothesis
  | case5 fuel type notVar => exact .ok _

theorem Store.apply_failsBy (quantification : Quantification) (template : Template)
    (args : List (Ty MetaVar)) :
    FailsBy env.Stops (store.apply level quantification template args) := by
  rw [apply, instantiateAt]
  split
  · exact .ok _
  · rename_i misfits
    exact .inl misfits

theorem Store.typeText_failsBy (type : Ty MetaVar) : FailsBy env.Stops (store.typeText type) := by
  rw [typeText, textOf]
  refine .bind ?_ fun _ => .ok _
  rw [settle]
  split
  · rename_i fault found
    obtain ⟨v, _, isFault⟩ := List.exists_of_findSome?_eq_some found
    rw [unsettled?] at isFault
    split at isFault
    · cases isFault
      exact .inl trivial
    · cases isFault
    · cases isFault
      exact .inr rfl
  · exact .ok _

namespace Environment

theorem expandWithin_failsBy (fuel : Nat) (store : Store) (type : Ty MetaVar) :
    FailsBy env.Stops (env.expandWithin level fuel store type) := by
  induction fuel using Nat.strong_induction_on generalizing store type with
  | _ fuel inductionHypothesis =>
      rw [expandWithin]
      refine (Store.unfoldWithin_failsBy _ type).bind fun root => ?_
      dsimp only
      split
      · exact .ok _
      · rename_i con args isAlias
        split
        · rename_i noBody
          exact .inl ⟨(eq_data_of_aliasAt? isAlias).2, noBody⟩
        · rename_i template isBody
          split
          · exact .inr rfl
          · rename_i fuel
            exact (Store.apply_failsBy .allowed template args).bind fun applied =>
              inductionHypothesis fuel (Nat.lt_succ_self fuel) applied.2 applied.1

theorem expand_failsBy (store : Store) (type : Ty MetaVar) :
    FailsBy env.Stops (env.expand level store type) := by
  rw [expand]
  refine (Store.unfoldWithin_failsBy _ type).bind fun root => ?_
  split
  · exact .ok _
  · exact expandWithin_failsBy _ store root

/-! ## Heads -/

theorem constructorHeads_failsBy (args : List (Ty MetaVar)) (constructors : List Constructor)
    (store : Store) : FailsBy env.Stops (constructorHeads level args store constructors) := by
  induction constructors generalizing store with
  | nil => exact .ok _
  | cons constructor rest inductionHypothesis =>
      rw [constructorHeads]
      refine (Store.apply_failsBy .allowed constructor.payload args).bind fun applied => ?_
      refine (Store.unfoldWithin_failsBy _ applied.1).bind fun root => ?_
      exact (inductionHypothesis applied.2).bind fun heads => .ok _

theorem ne_of_strangeLength? {length other : Nat} {column : List Shape}
    (strange : strangeLength? length column = some other) : other ≠ length := by
  simpa using List.find?_some strange

theorem not_mem_of_strangeCtor? {constructors : List Constructor} {column : List Shape} {name : String}
    (strange : strangeCtor? constructors column = some name) :
    ∀ constructor ∈ constructors, constructor.name ≠ name := by
  have unlisted : name ∉ constructors.map Constructor.name := by simpa using List.find?_some strange
  rintro constructor among rfl
  exact unlisted (List.mem_map_of_mem among)

theorem heads_failsBy (store : Store) (type : Ty MetaVar) (column : List Shape) :
    FailsBy env.Stops (env.heads level store type column) := by
  rw [heads]
  refine (expand_failsBy store type).bind fun expanded => ?_
  have noHeads (other : Ty MetaVar) : FailsBy env.Stops
      (do let text ← expanded.2.typeText other
          throw (.noHeads text) : Except Fault (List (Head MetaVar) × Store)) :=
    (Store.typeText_failsBy other).bind fun _ => .inl trivial
  obtain ⟨root, grown⟩ := expanded
  cases root with
  | base kind =>
      cases kind with
      | unit | bool | int | string => exact .ok _
      | _ => exact noHeads _
  | list element => exact .ok _
  | product components =>
      dsimp only
      split
      · rename_i length strange
        exact .inl (ne_of_strangeLength? strange)
      · exact .ok _
  | data con args =>
      dsimp only
      split
      · rename_i undeclared
        exact .inl undeclared
      · rename_i constructors listed
        split
        · rename_i name strange
          exact .inl ⟨constructors, listed, not_mem_of_strangeCtor? strange⟩
        · exact constructorHeads_failsBy args constructors grown
  | _ => exact noHeads _

end Environment

/-! ## Rows -/

theorem coverHeads_failsBy {rows : List Row} {rest : List (Ty MetaVar)}
    {asks : rows.all Row.skips = false} {heads : List (Head MetaVar)}
    (each : ∀ (head : Head MetaVar) (store : Store),
      FailsBy env.Stops (cover env level store (keptRows head rows) (head.slots ++ rest))) :
    FailsBy env.Stops (coverHeads env level store rows rest heads asks) := by
  induction heads generalizing store with
  | nil =>
      rw [coverHeads]
      exact .ok _
  | cons head more inductionHypothesis =>
      rw [coverHeads]
      exact (each head store).bind fun inner => inductionHypothesis.bind fun others => .ok _

theorem cover_failsBy (env : Environment) (level : Level) (store : Store) (rows : List Row)
    (slots : List (Ty MetaVar)) : FailsBy env.Stops (cover env level store rows slots) := by
  match slots with
  | [] =>
      rw [cover]
      exact .ok _
  | slot :: rest =>
      by_cases empty : rows.isEmpty = true
      · rw [cover, if_pos empty]
        exact .ok _
      · rw [cover, if_neg empty]
        by_cases skips : rows.all Row.skips = true
        · rw [dif_pos skips]
          exact (cover_failsBy env level store (rows.map Row.tail) rest).bind fun found => .ok _
        · rw [dif_neg skips]
          refine (Environment.heads_failsBy store slot _).bind fun listed => ?_
          exact coverHeads_failsBy fun head before =>
            cover_failsBy env level before (keptRows head rows) (head.slots ++ rest)
termination_by (openNodes rows, slots.length)
decreasing_by
  · rw [openNodes_map_tail skips]
    exact .right _ (Nat.lt_succ_self _)
  · exact .left _ _ (openNodes_keptRows_lt head (by simpa using skips))

/-! ## Matches -/

def Match.Misplaces (subject : Match) (fault : Fault) : Prop :=
  ∃ branch ∈ subject.branches, branch.pattern.Misplaces .alone fault

theorem Row.ofBranches_failsBy (index : Nat) (branches : List Branch) :
    FailsBy (fun fault => ∃ branch ∈ branches, branch.pattern.Misplaces .alone fault)
      (Row.ofBranches index branches) := by
  induction branches generalizing index with
  | nil => exact .ok _
  | cons branch rest inductionHypothesis =>
      rw [ofBranches]
      refine ((Shape.ofPattern_failsBy branch.pattern).imp ?_).bind fun shape =>
        ((inductionHypothesis (index + 1)).imp ?_).bind fun rows => .ok _
      · exact fun fault misplaces => ⟨branch, .head _, misplaces⟩
      · rintro fault ⟨other, among, misplaces⟩
        exact ⟨other, .tail _ among, misplaces⟩

theorem Match.findings_failsBy (subject : Match) (env : Environment) (level : Level) (store : Store) :
    FailsBy (fun fault => subject.Misplaces fault ∨ env.Stops fault)
      (subject.findings env level store) := by
  rw [findings]
  refine ((Row.ofBranches_failsBy 0 subject.branches).imp fun _ => .inl).bind fun rows => ?_
  exact (cover_failsBy env level store rows [subject.scrutinee]).imp fun _ => .inr

end TypedMatch
