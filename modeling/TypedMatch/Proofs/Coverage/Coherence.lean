import TypedMatch.Coverage.Check
import TypedMatch.Proofs.Environment.Expand
import TypedMatch.Proofs.Scheme.Coherence

/-!
# Checks on coherent stores

A check looks through the types of slots and instantiates payloads and the bodies of aliases.  On a coherent
store that has minted the variables of the match and of the declared types it meets no variable without a
cell, and it leaves a coherent store.  Whatever else is wrong with a match may end the check.
-/

set_option autoImplicit false

namespace TypedMatch

/-- Whether a store has minted the variables that declared types mention. -/
structure Environment.MintedBy (env : Environment) (store : Store) : Prop where
  bodies : ∀ {con : TyCon} {template : Template}, env.body? con = some template →
    store.Minted (· ∈ template.vars)
  payloads : ∀ {con : TyCon} {constructors : List Constructor},
    env.constructors? con = some constructors → ∀ constructor ∈ constructors,
      store.Minted (· ∈ constructor.payload.vars)

def Head.Mentions (head : Head MetaVar) (v : MetaVar) : Prop := ∃ slot ∈ head.slots, v ∈ slot.leaves

variable {env : Environment} {level : Level} {store grown : Store}

theorem Environment.MintedBy.mono (minted : env.MintedBy store) (nextVar_le : store.nextVar ≤ grown.nextVar) :
    env.MintedBy grown where
  bodies := fun isBody => (minted.bodies isBody).mono nextVar_le
  payloads := fun listed constructor among =>
    (minted.payloads listed constructor among).mono nextVar_le

namespace Store.Coherent

/-! ## Expansions -/

theorem minted_of_mem_list {types : List (Ty MetaVar)}
    (minted : store.Minted (· ∈ Ty.leavesList types)) :
    ∀ type ∈ types, store.Minted (· ∈ type.leaves) := by
  intro type among v occurs
  exact minted v (Ty.mem_leavesList.mpr ⟨type, among, occurs⟩)

theorem expandWithin_advances (coherent : store.Coherent) (envMinted : env.MintedBy store) (level : Level)
    (fuel : Nat) {type : Ty MetaVar} (minted : store.Minted (· ∈ type.leaves)) :
    store.Advances (fun root v => v ∈ root.leaves) (env.expandWithin level fuel store type) := by
  induction fuel generalizing store type with
  | zero =>
      rw [Environment.expandWithin]
      refine (coherent.unfoldWithin_reads _ type minted).before fun root rootMinted => ?_
      dsimp only
      split
      · exact coherent.advances rootMinted
      · split
        · rfl
        · rfl
  | succ fuel inductionHypothesis =>
      rw [Environment.expandWithin]
      refine (coherent.unfoldWithin_reads _ type minted).before fun root rootMinted => ?_
      dsimp only
      split
      · exact coherent.advances rootMinted
      · rename_i con args isAlias
        split
        · rfl
        · rename_i template isBody
          rw [(Environment.eq_data_of_aliasAt? isAlias).1] at rootMinted
          refine (coherent.apply_advances (envMinted.bodies isBody) (minted_of_mem_list rootMinted) level
            .allowed).bind fun body grown held => ?_
          exact inductionHypothesis held.coherent (envMinted.mono held.nextVar_le) held.minted

theorem expand_advances (coherent : store.Coherent) (envMinted : env.MintedBy store) (level : Level)
    {type : Ty MetaVar} (minted : store.Minted (· ∈ type.leaves)) :
    store.Advances (fun root v => v ∈ root.leaves) (env.expand level store type) := by
  rw [Environment.expand]
  refine (coherent.unfoldWithin_reads _ type minted).before fun root rootMinted => ?_
  split
  · exact coherent.advances rootMinted
  · exact coherent.expandWithin_advances envMinted level _ rootMinted

/-! ## Heads -/

theorem constructorHeads_advances (coherent : store.Coherent) (level : Level) {args : List (Ty MetaVar)}
    (argsMinted : ∀ arg ∈ args, store.Minted (· ∈ arg.leaves)) {constructors : List Constructor}
    (payloadsMinted : ∀ constructor ∈ constructors, store.Minted (· ∈ constructor.payload.vars)) :
    store.Advances (fun heads v => ∃ head ∈ heads, head.Mentions v)
      (constructorHeads level args store constructors) := by
  induction constructors generalizing store with
  | nil =>
      refine coherent.advances ?_
      rintro v ⟨head, among, _⟩
      cases among
  | cons constructor rest inductionHypothesis =>
      obtain ⟨firstMinted, restMinted⟩ := List.forall_mem_cons.mp payloadsMinted
      rw [constructorHeads]
      refine (coherent.apply_advances firstMinted argsMinted level .allowed).bind
        fun payload grown held => ?_
      refine (held.coherent.unfoldWithin_reads _ payload held.minted).before fun root _ => ?_
      dsimp only
      refine (inductionHypothesis held.coherent
        (fun arg among => (argsMinted arg among).mono held.nextVar_le)
        (fun other among => (restMinted other among).mono held.nextVar_le)).bind
        fun heads last lastHeld => ?_
      refine lastHeld.coherent.advances ?_
      rintro v ⟨head, among, mentions⟩
      rcases List.mem_cons.mp among with rfl | later
      · obtain ⟨slot, isSlot, occurs⟩ := mentions
        split at isSlot
        · cases isSlot
        · cases List.mem_singleton.mp isSlot
          exact held.minted.mono lastHeld.nextVar_le v occurs
      · exact lastHeld.minted v ⟨head, later, mentions⟩

theorem heads_advances (coherent : store.Coherent) (envMinted : env.MintedBy store) (level : Level)
    {type : Ty MetaVar} (minted : store.Minted (· ∈ type.leaves)) (column : List Shape) :
    store.Advances (fun heads v => ∃ head ∈ heads, head.Mentions v)
      (env.heads level store type column) := by
  rw [Environment.heads]
  refine (coherent.expand_advances envMinted level minted).bind fun root grown held => ?_
  have noParts {heads : List (Head MetaVar)} (flat : ∀ head ∈ heads, head.slots = []) :
      grown.Advances (fun heads v => ∃ head ∈ heads, head.Mentions v) (.ok (heads, grown)) := by
    refine held.coherent.advances ?_
    rintro v ⟨head, among, slot, isSlot, _⟩
    rw [flat head among] at isSlot
    cases isSlot
  have noHeads : grown.Advances (fun (heads : List (Head MetaVar)) v => ∃ head ∈ heads, head.Mentions v)
      (do let text ← grown.typeText root; throw (.noHeads text)) :=
    (held.coherent.typeText_reads held.minted).before fun _ _ => rfl
  cases root with
  | base kind =>
      cases kind with
      | unit | bool => exact noParts (by simp [Head.slots])
      | int | string =>
          refine noParts ?_
          intro head among
          simp only [List.mem_append, List.mem_map, List.mem_singleton] at among
          rcases among with ⟨_, _, rfl⟩ | rfl <;> rfl
      | _ => exact noHeads
  | list element =>
      refine held.coherent.advances ?_
      rintro v ⟨head, among, slot, isSlot, occurs⟩
      apply held.minted v
      simp only [List.mem_cons, List.not_mem_nil, or_false] at among
      rcases among with rfl | rfl
      · simp only [Head.slots, List.mem_cons, List.not_mem_nil, or_false] at isSlot
        rcases isSlot with rfl | rfl <;> exact occurs
      · cases isSlot
  | product components =>
      dsimp only
      split
      · rfl
      · refine held.coherent.advances ?_
        rintro v ⟨head, among, slot, isSlot, occurs⟩
        cases List.mem_singleton.mp among
        exact minted_of_mem_list held.minted slot isSlot v occurs
  | data con args =>
      dsimp only
      split
      · rfl
      · rename_i constructors listed
        split
        · rfl
        · exact held.coherent.constructorHeads_advances level (minted_of_mem_list held.minted)
            ((envMinted.mono held.nextVar_le).payloads listed)
  | _ => exact noHeads

/-! ## Checks -/

theorem coverHeads_advances (coherent : store.Coherent) (envMinted : env.MintedBy store) {rows : List Row}
    {rest : List (Ty MetaVar)} {asks : rows.all Row.skips = false} {heads : List (Head MetaVar)}
    (each : ∀ (head : Head MetaVar) (store : Store), store.Coherent → env.MintedBy store →
      (∀ slot ∈ head.slots ++ rest, store.Minted (· ∈ slot.leaves)) →
      store.Advances (fun _ _ => False) (cover env level store (keptRows head rows) (head.slots ++ rest)))
    (headsMinted : store.Minted fun v => ∃ head ∈ heads, head.Mentions v)
    (restMinted : ∀ slot ∈ rest, store.Minted (· ∈ slot.leaves)) :
    store.Advances (fun _ _ => False) (coverHeads env level store rows rest heads asks) := by
  induction heads generalizing store with
  | nil =>
      rw [coverHeads]
      exact coherent.advances (Store.minted_none _)
  | cons head more inductionHypothesis =>
      rw [coverHeads]
      refine (each head store coherent envMinted ?_).bind fun inner grown held => ?_
      · intro slot among
        rcases List.mem_append.mp among with isSlot | inRest
        · exact fun v occurs => headsMinted v ⟨head, .head _, slot, isSlot, occurs⟩
        · exact restMinted slot inRest
      · refine (inductionHypothesis held.coherent (envMinted.mono held.nextVar_le) ?_ ?_).bind
          fun others last lastHeld => lastHeld.coherent.advances (Store.minted_none _)
        · rintro v ⟨other, later, mentions⟩
          exact Nat.lt_of_lt_of_le (headsMinted v ⟨other, .tail _ later, mentions⟩) held.nextVar_le
        · exact fun slot inRest => (restMinted slot inRest).mono held.nextVar_le

theorem cover_advances {store : Store} (coherent : store.Coherent) (envMinted : env.MintedBy store)
    (level : Level) (rows : List Row) (slots : List (Ty MetaVar))
    (slotsMinted : ∀ slot ∈ slots, store.Minted (· ∈ slot.leaves)) :
    store.Advances (fun _ _ => False) (cover env level store rows slots) := by
  match slots with
  | [] =>
      rw [cover]
      exact coherent.advances (Store.minted_none _)
  | slot :: rest =>
      obtain ⟨firstMinted, restMinted⟩ := List.forall_mem_cons.mp slotsMinted
      by_cases empty : rows.isEmpty = true
      · rw [cover, if_pos empty]
        exact coherent.advances (Store.minted_none _)
      · rw [cover, if_neg empty]
        by_cases skips : rows.all Row.skips = true
        · rw [dif_pos skips]
          exact (coherent.cover_advances envMinted level (rows.map Row.tail) rest restMinted).bind
            fun inner last held => held.coherent.advances (Store.minted_none _)
        · rw [dif_neg skips]
          refine (coherent.heads_advances envMinted level firstMinted _).bind fun heads next held => ?_
          refine held.coherent.coverHeads_advances (envMinted.mono held.nextVar_le) ?_ held.minted
            fun slot inRest => (restMinted slot inRest).mono held.nextVar_le
          intro head before beforeCoherent beforeMinted partsMinted
          exact beforeCoherent.cover_advances beforeMinted level (keptRows head rows) (head.slots ++ rest)
            partsMinted
termination_by (openNodes rows, slots.length)
decreasing_by
  · rw [openNodes_map_tail skips]
    exact .right _ (Nat.lt_succ_self _)
  · exact .left _ _ (openNodes_keptRows_lt head (by simpa using skips))

end Store.Coherent

/-! ## Patterns

A pattern that makes no sense has no shape, and says nothing about variables of types. -/

mutual

theorem Shape.ofPattern_reads : ∀ pattern : Pattern,
    store.Reads (fun _ _ => False) (Shape.ofPattern pattern)
  | .wildcard | .var _ | .unit | .bool _ | .int _ | .str _ | .nil => store.minted_none
  | .binding _ pattern => Shape.ofPattern_reads pattern
  | .cons head tail =>
      (Shape.ofPattern_reads head).bind fun _ _ =>
        (Shape.ofPattern_reads tail).bind fun _ _ => store.minted_none
  | .chain first rest =>
      (Shape.ofPattern_reads first).bind fun _ _ =>
        (Shape.ofChain_reads rest).bind fun _ _ => store.minted_none
  | .chainEnd => rfl
  | .ctor _ payload => (Shape.ofPattern_reads payload).bind fun _ _ => store.minted_none

theorem Shape.ofChain_reads : ∀ pattern : Pattern,
    store.Reads (fun _ _ => False) (Shape.ofChain pattern)
  | .chainEnd => store.minted_none
  | .chain component next =>
      (Shape.ofPattern_reads component).bind fun _ _ =>
        (Shape.ofChain_reads next).bind fun _ _ => store.minted_none
  | .wildcard | .var _ | .unit | .bool _ | .int _ | .str _ | .nil => rfl
  | .binding _ _ | .cons _ _ | .ctor _ _ => rfl

end

theorem Row.ofBranches_reads (index : Nat) (branches : List Branch) :
    store.Reads (fun _ _ => False) (Row.ofBranches index branches) := by
  induction branches generalizing index with
  | nil => exact store.minted_none
  | cons branch rest inductionHypothesis =>
      rw [Row.ofBranches]
      refine (Shape.ofPattern_reads branch.pattern).bind fun shape _ => ?_
      exact (inductionHypothesis (index + 1)).bind fun rows _ => store.minted_none

theorem Match.verdict_advances (coherent : store.Coherent) (envMinted : env.MintedBy store)
    (subject : Match) (minted : store.Minted (· ∈ subject.scrutinee.leaves)) (level : Level)
    (options : Options) :
    store.Advances (fun _ _ => False) (subject.verdict env level store options) := by
  have found : store.Advances (fun _ _ => False) (subject.findings env level store) := by
    refine (Row.ofBranches_reads 0 subject.branches).before fun rows _ => ?_
    refine coherent.cover_advances envMinted level rows [subject.scrutinee] ?_
    intro slot among
    rw [List.mem_singleton.mp among]
    exact minted
  exact found.bind fun findings grown held => held.coherent.advances (Store.minted_none _)

end TypedMatch
