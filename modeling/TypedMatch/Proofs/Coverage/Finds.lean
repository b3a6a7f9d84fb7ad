import TypedMatch.Coverage.Cover
import TypedMatch.Proofs.Coverage.ComputedHeads

/-!
# What a check finds

`Environment.Finds` says what a check of rows finds out against slots whose types have given outlines:
it is the check without the store.  There is at most one such result.  For owned slots a check either
succeeds with that result, and the store only grows, or there is none and the check fails.  So whether a
check succeeds, and what it finds out, is decided by the outlines alone.
-/

set_option autoImplicit false

namespace TypedMatch

def Findings.foldAll (families : List (Head Unit × Findings)) : Findings :=
  families.foldr (fun family others => (family.2.mapHoles (Hole.fold family.1)).append others) .none

inductive Environment.Finds (env : Environment) : List Row → List (Ty Unit) → Findings → Prop where
  | done (rows : List Row) : Finds env rows [] (.ofRows rows)
  | spent (slot : Ty Unit) (rest : List (Ty Unit)) :
      Finds env [] (slot :: rest) ⟨[⟨.unmatched, (slot :: rest).map fun _ => .wildcard⟩], []⟩
  | skip {rows : List Row} {slot : Ty Unit} {rest : List (Ty Unit)} {findings : Findings} :
      rows ≠ [] → rows.all Row.skips = true → Finds env (rows.map Row.tail) rest findings →
      Finds env rows (slot :: rest) (findings.mapHoles Hole.skip)
  | split {rows : List Row} {slot : Ty Unit} {rest : List (Ty Unit)}
      {families : List (Head Unit × Findings)} : rows.all Row.skips = false →
      env.Lists (column rows) slot (families.map Prod.fst) →
      (∀ family ∈ families,
        Finds env (keptRows family.1 rows) (family.1.slots ++ rest) family.2) →
      Finds env rows (slot :: rest) (.foldAll families)

variable {env : Environment} {rows : List Row} {slot : Ty Unit} {rest slots : List (Ty Unit)}
  {findings : Findings}

theorem Findings.families_unique (holds : Head Unit → Findings → Prop)
    {families others : List (Head Unit × Findings)}
    (sameHeads : families.map Prod.fst = others.map Prod.fst)
    (unique : ∀ family ∈ families, ∀ findings, holds family.1 findings → family.2 = findings)
    (othersHold : ∀ family ∈ others, holds family.1 family.2) : families = others := by
  induction families generalizing others with
  | nil => rw [List.map_eq_nil_iff.mp sameHeads.symm]
  | cons family families inductionHypothesis =>
      cases others with
      | nil => cases sameHeads
      | cons other others =>
          obtain ⟨sameHead, sameRest⟩ := List.cons.inj sameHeads
          obtain ⟨otherHolds, restHolds⟩ := List.forall_mem_cons.mp othersHold
          obtain ⟨familyUnique, restUnique⟩ := List.forall_mem_cons.mp unique
          rw [← sameHead] at otherHolds
          rw [Prod.ext sameHead (familyUnique other.2 otherHolds),
            inductionHypothesis sameRest restUnique restHolds]

namespace Environment

theorem Finds.unique {others : Findings} (finds : env.Finds rows slots findings)
    (otherwise : env.Finds rows slots others) : findings = others := by
  induction finds generalizing others with
  | done rows =>
      cases otherwise
      rfl
  | spent slot rest =>
      cases otherwise with
      | spent => rfl
      | skip nonempty _ _ => exact absurd rfl nonempty
      | split asks _ _ => cases asks
  | skip nonempty skips _ inductionHypothesis =>
      cases otherwise with
      | spent => exact absurd rfl nonempty
      | skip _ _ inner => rw [inductionHypothesis inner]
      | split asks _ _ => cases skips.symm.trans asks
  | @split rows slot rest families asks lists _ inductionHypothesis =>
      cases otherwise with
      | spent => cases asks
      | skip _ skips _ => cases skips.symm.trans asks
      | split _ otherLists each =>
          have sameFamilies := Findings.families_unique
            (fun head findings => env.Finds (keptRows head rows) (head.slots ++ rest) findings)
            (lists.unique otherLists)
            (fun family among findings => inductionHypothesis family among) each
          rw [sameFamilies]

theorem finds_skip_iff (nonempty : rows ≠ []) (skips : rows.all Row.skips = true) :
    env.Finds rows (slot :: rest) findings ↔
      ∃ inner, env.Finds (rows.map Row.tail) rest inner ∧ findings = inner.mapHoles Hole.skip := by
  constructor
  · intro finds
    cases finds with
    | spent => exact absurd rfl nonempty
    | skip _ _ inner => exact ⟨_, inner, rfl⟩
    | split asks _ _ => cases skips.symm.trans asks
  · rintro ⟨inner, finds, rfl⟩
    exact .skip nonempty skips finds

def FindsBehind (env : Environment) (rows : List Row) (rest : List (Ty Unit))
    (heads : List (Head Unit)) (findings : Findings) : Prop :=
  ∃ families, families.map Prod.fst = heads ∧
    (∀ family ∈ families,
      env.Finds (keptRows family.1 rows) (family.1.slots ++ rest) family.2) ∧
    findings = .foldAll families

theorem finds_split_iff (asks : rows.all Row.skips = false) {heads : List (Head Unit)}
    (lists : env.Lists (column rows) slot heads) :
    env.Finds rows (slot :: rest) findings ↔ env.FindsBehind rows rest heads findings := by
  constructor
  · intro finds
    cases finds with
    | spent => cases asks
    | skip _ skips _ => cases skips.symm.trans asks
    | split _ otherLists each => exact ⟨_, otherLists.unique lists, each, rfl⟩
  · rintro ⟨families, rfl, each, rfl⟩
    exact .split asks lists each

theorem not_finds_of_not_lists (asks : rows.all Row.skips = false)
    (unlisted : ∀ heads, ¬ env.Lists (column rows) slot heads) :
    ¬ env.Finds rows (slot :: rest) findings := by
  intro finds
  cases finds with
  | spent => cases asks
  | skip _ skips _ => cases skips.symm.trans asks
  | split _ lists _ => exact unlisted _ lists

theorem findsBehind_cons_iff {head : Head Unit} {more : List (Head Unit)} :
    env.FindsBehind rows rest (head :: more) findings ↔
      ∃ inner others, env.Finds (keptRows head rows) (head.slots ++ rest) inner ∧
        env.FindsBehind rows rest more others ∧
        findings = (inner.mapHoles (Hole.fold head)).append others := by
  constructor
  · rintro ⟨families, sameHeads, each, rfl⟩
    obtain ⟨family, families, rfl, rfl, sameRest⟩ := List.map_eq_cons_iff.mp sameHeads
    obtain ⟨first, others⟩ := List.forall_mem_cons.mp each
    exact ⟨family.2, .foldAll families, first, ⟨families, sameRest, others, rfl⟩, rfl⟩
  · rintro ⟨inner, _, first, ⟨families, rfl, others, rfl⟩, rfl⟩
    exact ⟨(head, inner) :: families, rfl, List.forall_mem_cons.mpr ⟨first, others⟩, rfl⟩

end Environment

/-! ## Computed findings -/

/-- Whether a computation comes to what is to be found, with a store that has grown, or fails where
nothing is to be found. -/
def Store.Decides (store : Store) (run : Except Fault (Findings × Store))
    (finds : Findings → Prop) : Prop :=
  (∃ findings grown, run = .ok (findings, grown) ∧ grown.Extends store ∧ finds findings) ∨
    (∀ findings, ¬ finds findings) ∧ ∃ fault, run = .error fault

namespace Store.Decides

variable {store grown : Store} {run other : Except Fault (Findings × Store)}
  {finds inners others : Findings → Prop}

theorem of_finds {findings : Findings} (found : finds findings) :
    store.Decides (.ok (findings, store)) finds :=
  .inl ⟨findings, store, rfl, .refl store, found⟩

theorem of_extends (decides : grown.Decides run others) (growth : grown.Extends store)
    (same : ∀ findings, finds findings ↔ others findings) : store.Decides run finds := by
  rcases decides with ⟨findings, last, runs, further, found⟩ | ⟨nothing, fails⟩
  · exact .inl ⟨findings, last, runs, further.trans growth, (same findings).mpr found⟩
  · exact .inr ⟨fun findings found => nothing findings ((same findings).mp found), fails⟩

theorem map (decides : store.Decides run inners) (change : Findings → Findings)
    (same : ∀ findings, finds findings ↔ ∃ inner, inners inner ∧ findings = change inner) :
    store.Decides (run.map fun result => (change result.1, result.2)) finds := by
  rcases decides with ⟨inner, grown, rfl, growth, found⟩ | ⟨nothing, fault, rfl⟩
  · exact .inl ⟨change inner, grown, rfl, growth, (same _).mpr ⟨inner, found, rfl⟩⟩
  · refine .inr ⟨?_, fault, rfl⟩
    intro findings found
    obtain ⟨inner, innerFound, _⟩ := (same findings).mp found
    exact nothing inner innerFound

theorem bind {more : Store → Except Fault (Findings × Store)} (first : store.Decides run inners)
    (second : ∀ grown : Store, grown.Extends store → grown.Decides (more grown) others)
    (combine : Findings → Findings → Findings)
    (same : ∀ findings, finds findings ↔
      ∃ inner other, inners inner ∧ others other ∧ findings = combine inner other) :
    store.Decides
      (run.bind fun result => (more result.2).map fun last => (combine result.1 last.1, last.2))
      finds := by
  rcases first with ⟨inner, grown, rfl, growth, found⟩ | ⟨nothing, fault, rfl⟩
  · rcases second grown growth with ⟨other, last, runs, further, otherFound⟩ | ⟨nothing, fault, fails⟩
    · refine .inl ⟨combine inner other, last, ?_, further.trans growth,
        (same _).mpr ⟨inner, other, found, otherFound, rfl⟩⟩
      rw [Except.bind, runs]
      rfl
    · refine .inr ⟨?_, fault, ?_⟩
      · intro findings together
        obtain ⟨_, other, _, otherFound, _⟩ := (same findings).mp together
        exact nothing other otherFound
      · rw [Except.bind, fails]
        rfl
  · refine .inr ⟨?_, fault, rfl⟩
    intro findings found
    obtain ⟨inner, _, innerFound, _, _⟩ := (same findings).mp found
    exact nothing inner innerFound

theorem agree (decides : store.Decides run finds) (otherwise : store.Decides other finds)
    (unique : ∀ {findings others}, finds findings → finds others → findings = others) :
    (∃ findings grown otherGrown,
      run = .ok (findings, grown) ∧ other = .ok (findings, otherGrown)) ∨
      (∃ fault, run = .error fault) ∧ ∃ fault, other = .error fault := by
  rcases decides with ⟨findings, grown, runs, _, found⟩ | ⟨nothing, fails⟩
  · rcases otherwise with ⟨others, otherGrown, otherRuns, _, otherFound⟩ | ⟨otherNothing, _⟩
    · rw [← unique found otherFound] at otherRuns
      exact .inl ⟨findings, grown, otherGrown, runs, otherRuns⟩
    · exact absurd found (otherNothing findings)
  · rcases otherwise with ⟨others, _, _, _, otherFound⟩ | ⟨_, otherFails⟩
    · exact absurd otherFound (nothing others)
    · exact .inr ⟨fails, otherFails⟩

end Store.Decides

theorem Hole.fold_retype {Var NewVar : Type} (change : Ty Var → Ty NewVar) (head : Head Var) :
    Hole.fold (head.retype change) = Hole.fold head := by
  funext hole
  rw [fold, fold, Head.rebuild_retype, Head.arity_retype]

section Computed

variable {env outlined : Environment} {base store start : Store} {rows : List Row}
  {slots rest : List (Ty MetaVar)}

theorem coverHeads_decides (level : Level) (asks : rows.all Row.skips = false) :
    ∀ (heads : List (Head MetaVar)) (store : Store), store.Extends start →
      (∀ head ∈ heads, ∀ later : Store, later.Extends start →
        later.Decides (cover env level later (keptRows head rows) (head.slots ++ rest))
          (outlined.Finds (keptRows head rows) ((head.slots ++ rest).map start.outline))) →
      store.Decides (coverHeads env level store rows rest heads asks)
        (outlined.FindsBehind rows (rest.map start.outline)
          (heads.map (Head.retype start.outline))) := by
  intro heads
  induction heads with
  | nil =>
      intro store _ _
      rw [coverHeads]
      exact .of_finds ⟨[], rfl, List.forall_mem_nil _, rfl⟩
  | cons head more inductionHypothesis =>
      intro store extension each
      have first := each head (.head _) store extension
      have second := fun (grown : Store) (growth : grown.Extends store) =>
        inductionHypothesis grown (growth.trans extension) fun other among =>
          each other (.tail _ among)
      rw [coverHeads]
      refine first.bind second (fun inner others => (inner.mapHoles (Hole.fold head)).append others) ?_
      intro findings
      rw [List.map_cons, Environment.findsBehind_cons_iff, keptRows_retype,
        Head.slots_retype_outline, ← List.map_append, Hole.fold_retype]

variable {store : Store} {slot : Ty MetaVar}

theorem cover_decides_of_asks (acyclic : base.Acyclic) (owned : env.OwnedBy base) (level : Level)
    (extension : store.Extends base) (asks : rows.all Row.skips = false)
    (slotOwned : store.Owns slot.leaves) (restOwned : ∀ other ∈ rest, store.Owns other.leaves)
    (behind : ∀ (head : Head MetaVar) (later : Store), later.Extends base →
      (∀ other ∈ head.slots ++ rest, later.Owns other.leaves) →
      later.Decides (cover env level later (keptRows head rows) (head.slots ++ rest))
        ((env.outline base).Finds (keptRows head rows) ((head.slots ++ rest).map later.outline))) :
    store.Decides (cover env level store rows (slot :: rest))
      ((env.outline base).Finds rows ((slot :: rest).map store.outline)) := by
  have nonempty : ¬ rows.isEmpty = true := by
    intro empty
    cases List.isEmpty_iff.mp empty
    cases asks
  have acyclicStore : store.Acyclic := extension.acyclic acyclic
  rw [cover, if_neg nonempty, dif_neg (by simp [asks])]
  rcases Environment.heads_computed_or_error acyclic owned level extension slotOwned (column rows) with
    ⟨heads, grown, computes⟩ | ⟨unlisted, fault, fails⟩
  · rw [computes.runs]
    -- The check behind one head leaves the store for the next one, so it is described for every store
    -- that has grown from the one in which the heads were computed.
    have each : ∀ head ∈ heads, ∀ later : Store, later.Extends grown →
        later.Decides (cover env level later (keptRows head rows) (head.slots ++ rest))
          ((env.outline base).Finds (keptRows head rows)
            ((head.slots ++ rest).map grown.outline)) := by
      intro head inHeads later growth
      have partsOwned : ∀ other ∈ head.slots ++ rest, grown.Owns other.leaves := by
        intro other inSlots
        rcases List.mem_append.mp inSlots with inHead | inRest
        · exact computes.owned head inHeads other inHead
        · exact computes.growth.owns (restOwned other inRest)
      rw [← Store.map_outline_of_extends (computes.growth.acyclic acyclicStore) growth partsOwned]
      exact behind head later (growth.trans (computes.growth.trans extension)) fun other inSlots =>
        growth.owns (partsOwned other inSlots)
    refine (coverHeads_decides level asks heads grown (.refl grown) each).of_extends computes.growth ?_
    intro findings
    rw [Store.map_outline_of_extends acyclicStore computes.growth restOwned]
    exact Environment.finds_split_iff asks computes.lists
  · rw [fails]
    exact .inr ⟨fun _ => Environment.not_finds_of_not_lists asks unlisted, fault, rfl⟩

/-- For owned slots, a check comes to what is to be found, or nothing is and the check fails. -/
theorem cover_decides (acyclic : base.Acyclic) (owned : env.OwnedBy base) (level : Level)
    (store : Store) (extension : store.Extends base) (rows : List Row) (slots : List (Ty MetaVar))
    (slotsOwned : ∀ slot ∈ slots, store.Owns slot.leaves) :
    store.Decides (cover env level store rows slots)
      ((env.outline base).Finds rows (slots.map store.outline)) := by
  match slots, slotsOwned with
  | [], _ =>
      rw [cover]
      exact .of_finds (.done rows)
  | slot :: rest, slotsOwned =>
      obtain ⟨slotOwned, restOwned⟩ := List.forall_mem_cons.mp slotsOwned
      cases skips : rows.all Row.skips with
      | false =>
          exact cover_decides_of_asks acyclic owned level extension skips slotOwned restOwned
            fun head later growth partsOwned =>
              cover_decides acyclic owned level later growth (keptRows head rows) (head.slots ++ rest)
                partsOwned
      | true =>
          by_cases empty : rows.isEmpty = true
          · cases List.isEmpty_iff.mp empty
            rw [cover, if_pos empty]
            have spent : (env.outline base).Finds [] _ _ :=
              .spent (store.outline slot) (rest.map store.outline)
            rw [← List.map_cons, List.map_map] at spent
            exact .of_finds spent
          · have inner := cover_decides acyclic owned level store extension (rows.map Row.tail) rest
              restOwned
            rw [cover, if_neg empty, dif_pos skips]
            exact inner.map (Findings.mapHoles Hole.skip) fun findings =>
              Environment.finds_skip_iff (fun none => empty (List.isEmpty_iff.mpr none)) skips
termination_by (openNodes rows, slots.length)
decreasing_by
  · exact .left _ _ (openNodes_keptRows_lt head skips)
  · rw [openNodes_map_tail skips]
    exact .right _ (Nat.lt_succ_self _)

end Computed

end TypedMatch
