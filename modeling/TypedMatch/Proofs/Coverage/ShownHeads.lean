import TypedMatch.Proofs.Coverage.ComputedHeads
import TypedMatch.Proofs.Environment.UnrollingBudget

/-!
# The heads that an earlier store sees

The heads of a type are computed in a later store, which has new variables wherever a payload needs them.
To the earlier store these are all alike, so what it sees of the heads does not depend on how many there
are, nor on what has been computed before.  `Environment.ShowsHeads` says what it sees, from what it sees
of the type.  There is at most one such list, and a later store computes it or, where there is none, fails.
Links may lead back to themselves.
-/

set_option autoImplicit false

namespace TypedMatch

def BaseTy.heads? {Var : Type} (column : List Shape) : BaseTy → Option (List (Head Var))
  | .unit => some [.unit]
  | .bool => some [.bool true, .bool false]
  | .int => some ((listedInts column).map .int ++ [.intBesides (listedInts column)])
  | .string => some ((listedStrs column).map .str ++ [.strBesides (listedStrs column)])
  | _ => none

inductive Constructor.HasHead (base : Store) (args : List (Ty (Option MetaVar)))
    (constructor : Constructor) : Head (Option MetaVar) → Prop where
  | constant {links : List MetaVar} : constructor.payload.params.length = args.length →
      base.Unfolds links (constructor.payload.viewWith args) .unit →
      HasHead base args constructor (.constant constructor.name)
  | applied {links : List MetaVar} {root : Ty (Option MetaVar)} :
      constructor.payload.params.length = args.length →
      base.Unfolds links (constructor.payload.viewWith args) root → root ≠ .unit →
      HasHead base args constructor (.applied constructor.name (constructor.payload.viewWith args))

theorem Constructor.HasHead.unique {base : Store} {args : List (Ty (Option MetaVar))}
    {constructor : Constructor} {head other : Head (Option MetaVar)}
    (hasHead : constructor.HasHead base args head) (otherwise : constructor.HasHead base args other) :
    head = other := by
  cases hasHead with
  | constant _ unfolds =>
      cases otherwise with
      | constant _ _ => rfl
      | applied _ otherUnfolds notUnit => exact absurd (unfolds.unique otherUnfolds).2.symm notUnit
  | applied _ unfolds notUnit =>
      cases otherwise with
      | constant _ otherUnfolds => exact absurd (unfolds.unique otherUnfolds).2 notUnit
      | applied _ _ _ => rfl

theorem Constructor.HasHead.unfolds {base : Store} {args : List (Ty (Option MetaVar))}
    {constructor : Constructor} {head : Head (Option MetaVar)}
    (hasHead : constructor.HasHead base args head) :
    constructor.payload.params.length = args.length ∧
      ∃ links root, base.Unfolds links (constructor.payload.viewWith args) root := by
  cases hasHead with
  | constant fits unfolds => exact ⟨fits, _, _, unfolds⟩
  | applied fits unfolds _ => exact ⟨fits, _, _, unfolds⟩

namespace Environment

inductive HeadsAt (env : Environment) (base : Store) (column : List Shape) :
    Ty (Option MetaVar) → List (Head (Option MetaVar)) → Prop where
  | base {kind : BaseTy} {heads : List (Head (Option MetaVar))} : kind.heads? column = some heads →
      HeadsAt env base column (.base kind) heads
  | list {element : Ty (Option MetaVar)} :
      HeadsAt env base column (.list element) [.cons element, .nil]
  | product {components : List (Ty (Option MetaVar))} :
      strangeLength? components.length column = none →
      HeadsAt env base column (.product components) [.tuple components]
  | data {con : TyCon} {args : List (Ty (Option MetaVar))} {constructors : List Constructor}
      {heads : List (Head (Option MetaVar))} : env.constructors? con = some constructors →
      strangeCtor? constructors column = none →
      List.Forall₂ (Constructor.HasHead base args) constructors heads →
      HeadsAt env base column (.data con args) heads

def ShowsHeads (env : Environment) (base : Store) (column : List Shape) (seen : Ty (Option MetaVar))
    (heads : List (Head (Option MetaVar))) : Prop :=
  ∃ links steps root, env.Unrolls base links steps seen root ∧ env.HeadsAt base column root heads

end Environment

section Unique

variable {env : Environment} {base : Store} {column : List Shape} {seen root : Ty (Option MetaVar)}
  {heads others : List (Head (Option MetaVar))}

theorem Constructor.forall₂_hasHead_unique {args : List (Ty (Option MetaVar))}
    {constructors : List Constructor}
    (have₂ : List.Forall₂ (Constructor.HasHead base args) constructors heads)
    (otherwise : List.Forall₂ (Constructor.HasHead base args) constructors others) : heads = others := by
  induction have₂ generalizing others with
  | nil =>
      cases otherwise
      rfl
  | cons hasHead _ inductionHypothesis =>
      cases otherwise with
      | cons otherHead otherRest => rw [hasHead.unique otherHead, inductionHypothesis otherRest]

theorem Environment.HeadsAt.unique (headsAt : env.HeadsAt base column root heads)
    (otherwise : env.HeadsAt base column root others) : heads = others := by
  cases headsAt with
  | base listed =>
      cases otherwise with
      | base otherListed => exact Option.some.inj (listed.symm.trans otherListed)
  | list =>
      cases otherwise
      rfl
  | product _ =>
      cases otherwise
      rfl
  | data declared _ each =>
      cases otherwise with
      | data otherDeclared _ otherEach =>
          cases declared.symm.trans otherDeclared
          exact Constructor.forall₂_hasHead_unique each otherEach

theorem Environment.ShowsHeads.unique (shows : env.ShowsHeads base column seen heads)
    (otherwise : env.ShowsHeads base column seen others) : heads = others := by
  obtain ⟨_, _, _, unrolls, headsAt⟩ := shows
  obtain ⟨_, _, _, otherUnrolls, otherHeadsAt⟩ := otherwise
  obtain ⟨_, rfl⟩ := unrolls.unique otherUnrolls
  exact headsAt.unique otherHeadsAt

theorem Environment.showsHeads_iff_of_unrolls {links : List MetaVar} {steps : Nat}
    (unrolls : env.Unrolls base links steps seen root) :
    env.ShowsHeads base column seen heads ↔ env.HeadsAt base column root heads := by
  constructor
  · rintro ⟨_, _, _, otherUnrolls, headsAt⟩
    obtain ⟨_, rfl⟩ := unrolls.unique otherUnrolls
    exact headsAt
  · exact fun headsAt => ⟨links, steps, root, unrolls, headsAt⟩

end Unique

/-! ## Heads in a later store -/

namespace Store

/-- Whether a computation comes to heads of which an earlier store sees what is to be seen, or fails where
there is nothing to be seen.  A later store has only minted variables for it. -/
def Exposes (base later : Store) (run : Except Fault (List (Head MetaVar) × Store))
    (shown : List (Head (Option MetaVar)) → Prop) : Prop :=
  (∃ heads grown, run = .ok (heads, grown) ∧ grown.Extends later ∧
      (∀ head ∈ heads, base.RecognizesEach grown head.slots) ∧
      shown (heads.map (Head.retype base.view))) ∨
    (∀ heads, ¬ shown heads) ∧ ∃ fault, run = .error fault

end Store

section Exposed

variable {base later : Store} {level : Level} {args : List (Ty MetaVar)}

theorem Store.Recognizes.ofRoot {payload : Ty MetaVar} (recognizes : base.Recognizes later payload)
    (name : String) (root : Ty MetaVar) : base.RecognizesEach later (Head.ofRoot name payload root).slots := by
  intro slot among
  unfold Head.ofRoot at among
  split at among
  · cases among
  · cases List.mem_singleton.mp among
    exact recognizes

theorem Constructor.hasHead_ofRoot {constructor : Constructor} {payload root : Ty MetaVar}
    {links : List MetaVar} (fits : constructor.payload.params.length = args.length)
    (payloadView : base.view payload = constructor.payload.viewWith (args.map base.view))
    (unfolds : base.Unfolds links (base.view payload) (base.view root)) :
    constructor.HasHead base (args.map base.view)
      ((Head.ofRoot constructor.name payload root).retype base.view) := by
  rw [payloadView] at unfolds
  have sameLength : constructor.payload.params.length = (args.map base.view).length :=
    fits.trans (List.length_map _).symm
  unfold Head.ofRoot
  split
  · exact .constant sameLength unfolds
  · rename_i notUnit
    rw [Head.retype, payloadView]
    refine .applied sameLength unfolds ?_
    intro isUnit
    cases root with
    | base kind =>
        cases isUnit
        exact notUnit rfl
    | _ => cases isUnit

theorem constructorHeads_cons_of_hasHead (level : Level) {constructor : Constructor}
    {head : Head (Option MetaVar)} (extension : later.Extends base)
    (owned : base.Owns constructor.payload.vars) (argsKnown : base.RecognizesEach later args)
    (hasHead : constructor.HasHead base (args.map base.view) head) :
    ∃ first next, first.retype base.view = head ∧ next.Extends later ∧
      base.RecognizesEach next first.slots ∧
      ∀ rest, constructorHeads level args later (constructor :: rest)
        = (constructorHeads level args next rest).map fun others => (first :: others.1, others.2) := by
  obtain ⟨fits, links, root, unfolds⟩ := hasHead.unfolds
  rw [List.length_map] at fits
  obtain ⟨payload, next, applies, growth, payloadKnown, payloadView⟩ :=
    Store.apply_of_recognizes extension owned argsKnown fits level .allowed
  rw [← payloadView] at unfolds
  obtain ⟨found, runs, rfl⟩ := Store.unfold_of_unfolds (growth.trans extension) payloadKnown unfolds
  refine ⟨.ofRoot constructor.name payload found, next, ?_, growth, payloadKnown.ofRoot _ _, ?_⟩
  · exact (Constructor.hasHead_ofRoot fits payloadView unfolds).unique hasHead
  · intro rest
    rw [constructorHeads, applies]
    simp only [bind, Except.bind, runs]
    cases constructorHeads level args next rest with
    | error fault => rfl
    | ok others => rfl

theorem constructorHeads_cons_error {constructor : Constructor} (extension : later.Extends base)
    (owned : base.Owns constructor.payload.vars) (argsKnown : base.RecognizesEach later args)
    (headless : ∀ head, ¬ constructor.HasHead base (args.map base.view) head) (rest : List Constructor) :
    ∃ fault, constructorHeads level args later (constructor :: rest) = .error fault := by
  cases runs : constructorHeads level args later (constructor :: rest) with
  | error fault => exact ⟨fault, rfl⟩
  | ok others =>
      rw [constructorHeads] at runs
      obtain ⟨⟨payload, next⟩, applies, runs⟩ := ok_of_bind runs
      obtain ⟨root, unfolds, _⟩ := ok_of_bind runs
      have fits : constructor.payload.params.length = args.length := Store.length_eq_of_apply applies
      obtain ⟨_, _, otherwise, growth, payloadKnown, payloadView⟩ :=
        Store.apply_of_recognizes extension owned argsKnown fits level .allowed
      cases applies.symm.trans otherwise
      obtain ⟨_, _, _, unfolded⟩ :=
        Store.unfolds_of_unfoldWithin (growth.trans extension) payloadKnown unfolds
      exact absurd (Constructor.hasHead_ofRoot fits payloadView unfolded) (headless _)

theorem constructorHeads_exposes (level : Level) {constructors : List Constructor}
    (extension : later.Extends base)
    (owned : ∀ constructor ∈ constructors, base.Owns constructor.payload.vars)
    (argsKnown : base.RecognizesEach later args) :
    base.Exposes later (constructorHeads level args later constructors)
      (List.Forall₂ (Constructor.HasHead base (args.map base.view)) constructors) := by
  induction constructors generalizing later with
  | nil => exact .inl ⟨[], later, rfl, .refl later, List.forall_mem_nil _, .nil⟩
  | cons constructor rest inductionHypothesis =>
      obtain ⟨firstOwned, restOwned⟩ := List.forall_mem_cons.mp owned
      by_cases headed : ∃ head, constructor.HasHead base (args.map base.view) head
      · obtain ⟨_, hasHead⟩ := headed
        obtain ⟨first, next, rfl, growth, firstKnown, runs⟩ :=
          constructorHeads_cons_of_hasHead level extension firstOwned argsKnown hasHead
        rw [runs]
        rcases inductionHypothesis (growth.trans extension) restOwned
          (argsKnown.of_extends growth) with
          ⟨heads, last, computes, further, headsKnown, shown⟩ | ⟨none, fault, fails⟩
        · refine .inl ⟨first :: heads, last, ?_, further.trans growth, ?_, .cons hasHead shown⟩
          · rw [computes]
            rfl
          · exact List.forall_mem_cons.mpr
              ⟨firstKnown.of_extends further, headsKnown⟩
        · refine .inr ⟨?_, fault, ?_⟩
          · rintro heads (_ | ⟨_, shown⟩)
            exact none _ shown
          · rw [fails]
            rfl
      · have headless := not_exists.mp headed
        refine .inr ⟨?_, constructorHeads_cons_error extension firstOwned argsKnown headless rest⟩
        rintro heads (_ | ⟨hasHead, _⟩)
        exact headless _ hasHead

variable {env : Environment} {grown : Store} {type found : Ty MetaVar} {column : List Shape}

theorem Store.Exposes.of_extends {run : Except Fault (List (Head MetaVar) × Store)}
    {shown others : List (Head (Option MetaVar)) → Prop} (exposes : base.Exposes grown run others)
    (growth : grown.Extends later) (same : ∀ heads, shown heads ↔ others heads) :
    base.Exposes later run shown := by
  rcases exposes with ⟨heads, last, runs, further, seen, isShown⟩ | ⟨none, fails⟩
  · exact .inl ⟨heads, last, runs, further.trans growth, seen, (same _).mpr isShown⟩
  · exact .inr ⟨fun heads isShown => none heads ((same heads).mp isShown), fails⟩

namespace Environment

theorem heads_exposes_of_data (owned : env.OwnedBy base) (extension : grown.Extends base) {con : TyCon}
    (expands : env.expand level later type = .ok (.data con args, grown))
    (argsKnown : base.RecognizesEach grown args) :
    base.Exposes grown (env.heads level later type column)
      (env.HeadsAt base column (.data con (args.map base.view))) := by
  rw [heads, expands]
  simp only [bind, Except.bind]
  cases declared : env.constructors? con with
  | none =>
      refine .inr ⟨?_, .notVariant con, rfl⟩
      rintro heads (_ | _ | _ | ⟨isDeclared, _, _⟩)
      cases declared.symm.trans isDeclared
  | some constructors =>
      cases strange : strangeCtor? constructors column with
      | some name =>
          refine .inr ⟨?_, .unknownConstructor name con, by simp only [strange]; rfl⟩
          rintro heads (_ | _ | _ | ⟨isDeclared, notStrange, _⟩)
          cases declared.symm.trans isDeclared
          cases strange.symm.trans notStrange
      | none =>
          simp only [strange]
          refine (constructorHeads_exposes level extension (owned.payloads declared)
            argsKnown).of_extends (.refl grown) fun heads => ⟨?_, .data declared strange⟩
          rintro (_ | _ | _ | ⟨isDeclared, _, each⟩)
          cases declared.symm.trans isDeclared
          exact each

theorem heads_exposes_of_base {kind : BaseTy}
    (expands : env.expand level later type = .ok (.base kind, grown)) :
    base.Exposes grown (env.heads level later type column) (env.HeadsAt base column (.base kind)) := by
  have ofHeads : ∀ heads : List (Head MetaVar), env.heads level later type column = .ok (heads, grown) →
      (∀ head ∈ heads, head.slots = []) →
      kind.heads? column = some (heads.map (Head.retype base.view)) →
      base.Exposes grown (env.heads level later type column) (env.HeadsAt base column (.base kind)) := by
    intro heads runs noSlots listed
    refine .inl ⟨heads, grown, runs, .refl grown, ?_, .base listed⟩
    intro head inHeads slot among
    rw [noSlots head inHeads] at among
    cases among
  cases kind with
  | unit =>
      refine ofHeads [.unit] ?_ (by simp [Head.slots]) rfl
      rw [heads, expands]
      rfl
  | bool =>
      refine ofHeads [.bool true, .bool false] ?_ (by simp [Head.slots]) rfl
      rw [heads, expands]
      rfl
  | int =>
      refine ofHeads ((listedInts column).map .int ++ [.intBesides (listedInts column)]) ?_
        (by simp [Head.slots, or_imp, forall_and]) ?_
      · rw [heads, expands]
        rfl
      · rw [List.map_append, List.map_map]
        rfl
  | string =>
      refine ofHeads ((listedStrs column).map .str ++ [.strBesides (listedStrs column)]) ?_
        (by simp [Head.slots, or_imp, forall_and]) ?_
      · rw [heads, expands]
        rfl
      · rw [List.map_append, List.map_map]
        rfl
  | _ =>
      refine .inr ⟨?_, heads_error_of_isSealed expands trivial⟩
      rintro heads (⟨⟨⟩⟩ | _)

theorem heads_exposes_of_expand (owned : env.OwnedBy base) (extension : grown.Extends base)
    (expands : env.expand level later type = .ok (found, grown)) (recognizes : base.Recognizes grown found) :
    base.Exposes grown (env.heads level later type column)
      (env.HeadsAt base column (base.view found)) := by
  cases found with
  | base kind => exact heads_exposes_of_base expands
  | list element =>
      refine .inl ⟨[.cons element, .nil], grown, ?_, .refl _, ?_, .list⟩
      · rw [heads, expands]
        rfl
      · refine List.forall_mem_cons.mpr ⟨?_, List.forall_mem_singleton.mpr (List.forall_mem_nil _)⟩
        exact List.forall_mem_cons.mpr ⟨recognizes, List.forall_mem_singleton.mpr recognizes⟩
  | product components =>
      rw [Store.view_product]
      cases strange : strangeLength? components.length column with
      | none =>
          refine .inl ⟨[.tuple components], grown, ?_, .refl _,
            List.forall_mem_singleton.mpr (.of_leavesList recognizes), .product ?_⟩
          · rw [heads, expands]
            simp only [bind, Except.bind, strange]
            rfl
          · rw [List.length_map]
            exact strange
      | some length =>
          refine .inr ⟨?_, .tupleLength components.length length, ?_⟩
          · rintro heads (_ | _ | notStrange | _)
            rw [List.length_map, strange] at notStrange
            cases notStrange
          · rw [heads, expands]
            simp only [bind, Except.bind, strange]
            rfl
  | data con args =>
      rw [Store.view_data]
      exact heads_exposes_of_data owned extension expands (.of_leavesList recognizes)
  | _ =>
      refine .inr ⟨?_, heads_error_of_isSealed expands trivial⟩
      rintro heads ⟨⟩

theorem heads_exposes (owned : env.OwnedBy base) (level : Level) (extension : later.Extends base)
    (recognizes : base.Recognizes later type) (column : List Shape) :
    base.Exposes later (env.heads level later type column)
      (env.ShowsHeads base column (base.view type)) := by
  cases expands : env.expand level later type with
  | error fault =>
      refine .inr ⟨?_, fault, ?_⟩
      · rintro heads ⟨_, _, _, unrolls, _⟩
        obtain ⟨_, _, succeeds, _⟩ := expand_of_unrolls owned extension recognizes unrolls
        cases expands.symm.trans succeeds
      · rw [heads, expands]
        rfl
  | ok result =>
      obtain ⟨found, grown⟩ := result
      obtain ⟨growth, foundKnown, _, _, unrolls⟩ := expandsTo_of_expand owned extension recognizes expands
      exact (heads_exposes_of_expand owned (growth.trans extension) expands foundKnown).of_extends growth
        fun _ => showsHeads_iff_of_unrolls unrolls

end Environment

end Exposed

end TypedMatch
