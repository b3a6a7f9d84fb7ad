import TypedMatch.Proofs.Environment.Budget
import TypedMatch.Proofs.Environment.Expand
import TypedMatch.Proofs.Environment.Unrolling

/-!
# What a type is expanded to

A type is expanded in a later store, which may have minted any number of variables since.  It is expanded
to what it unrolls to as the earlier store sees it, and the expansion fails where the type does not unroll
to anything.

That an expansion which has an end is never given up before it needs two bounds.  A store has room for all
links that are followed, because no variable is followed twice.  The budget for aliases covers all steps,
because no link of the way is cut off in the outlines of the types that are met: each of them goes at least
as deep as there are links left to follow.
-/

set_option autoImplicit false

namespace TypedMatch

theorem Table.length_le_size {Key Value : Type} [DecidableEq Key] {table : Table Key Value}
    {keys : List Key} (distinct : keys.Nodup) (known : ∀ key ∈ keys, (table.get? key).isSome) :
    keys.length ≤ table.size := by
  have subset : ∀ key ∈ keys, key ∈ table.entries.map Prod.fst := by
    intro key among
    obtain ⟨value, stored⟩ := Option.isSome_iff_exists.mp (known key among)
    obtain ⟨before, after, split, _⟩ := List.lookup_eq_some_iff.mp stored
    exact List.mem_map.mpr ⟨(key, value), by simp [split], rfl⟩
  have fewer := (distinct.subperm subset).length_le
  rwa [List.length_map] at fewer

/-! ## Types of a later store -/

namespace Store

/-- Whether every variable of a type was owned before, or has been minted since and is free. -/
def Recognizes (base later : Store) (type : Ty MetaVar) : Prop :=
  ∀ v ∈ type.leaves, v.number < later.nextVar ∧ base.Recalls later v

def RecognizesEach (base later : Store) (types : List (Ty MetaVar)) : Prop :=
  ∀ type ∈ types, base.Recognizes later type

variable {base later grown : Store} {type : Ty MetaVar} {template : Template} {args : List (Ty MetaVar)}

theorem Recognizes.of_owns (extension : later.Extends base) (owned : base.Owns type.leaves) :
    base.Recognizes later type := by
  intro v occurs
  have minted := (owned v (.here occurs)).1
  exact ⟨Nat.lt_of_lt_of_le minted extension.nextVar_le, .inl (owned.singleton occurs)⟩

theorem Recognizes.of_extends (growth : grown.Extends later) (recognizes : base.Recognizes later type) :
    base.Recognizes grown type := by
  intro v occurs
  obtain ⟨minted, recalled⟩ := recognizes v occurs
  refine ⟨Nat.lt_of_lt_of_le minted growth.nextVar_le, recalled.imp_right ?_⟩
  rintro ⟨new, record, stored⟩
  exact ⟨new, record, (growth.kept v minted).trans stored⟩

theorem RecognizesEach.of_extends {types : List (Ty MetaVar)} (growth : grown.Extends later)
    (recognizes : base.RecognizesEach later types) : base.RecognizesEach grown types :=
  fun type among => (recognizes type among).of_extends growth

theorem Recognizes.part {part : Ty MetaVar} (recognizes : base.Recognizes later type)
    (subset : ∀ v ∈ part.leaves, v ∈ type.leaves) : base.Recognizes later part :=
  fun v occurs => recognizes v (subset v occurs)

theorem Recognizes.of_leavesList {types : List (Ty MetaVar)}
    (recognizes : ∀ v ∈ Ty.leavesList types, v.number < later.nextVar ∧ base.Recalls later v) :
    base.RecognizesEach later types :=
  fun type among v occurs => recognizes v (Ty.mem_leavesList.mpr ⟨type, among, occurs⟩)

theorem Recognizes.bare (recognizes : base.Recognizes later type) : base.Recognizes later type.bare :=
  recognizes.part fun _ => Ty.mem_leaves_of_mem_leaves_bare type

/-- Behind its synonyms, a type either shows what it is, in both stores, or is a variable that has been
linked all along. -/
theorem Recognizes.settled_bare_or_linked (extension : later.Extends base)
    (recognizes : base.Recognizes later type) :
    (later.Settled type.bare ∧ base.Shows (base.view type.bare)) ∨
      ∃ v target, type.bare = .var v ∧ base.Owns [v] ∧
        base.cells.get? v = some (.linked target) ∧ later.cells.get? v = some (.linked target) := by
  have bareKnown := recognizes.bare
  cases bareForm : type.bare with
  | var v =>
      rw [bareForm] at bareKnown
      rcases (bareKnown v (.head _)).2 with owned | ⟨new, free⟩
      · obtain ⟨minted, known⟩ := owned v (.here (.head _))
        obtain ⟨cell, stored⟩ := Option.isSome_iff_exists.mp known
        have laterStored := (extension.kept v minted).trans stored
        cases cell with
        | free record =>
            refine .inl ⟨⟨record, laterStored⟩, ?_⟩
            rw [view, Ty.map, Ty.bind, old?_of_owns owned]
            exact ⟨record, stored⟩
        | linked target => exact .inr ⟨v, target, rfl, owned, stored, laterStored⟩
      · refine .inl ⟨free, ?_⟩
        rw [view, Ty.map, Ty.bind, old?_eq_none_iff.mpr new]
        exact trivial
  | synonym con args expansion => exact absurd bareForm (Ty.bare_ne_synonym type)
  | _ => exact .inl ⟨trivial, trivial⟩

theorem eq_data_of_view {con : TyCon} {args : List (Ty (Option MetaVar))}
    (isData : base.view type = .data con args) :
    ∃ given, type = .data con given ∧ given.map base.view = args := by
  cases type with
  | data head given =>
      rw [view_data] at isData
      cases isData
      exact ⟨given, rfl, rfl⟩
  | _ => cases isData

theorem length_eq_of_apply {level : Level} {quantification : Quantification}
    (applies : later.apply level quantification template args = .ok (type, grown)) :
    template.params.length = args.length := by
  rw [apply, instantiateAt] at applies
  split at applies
  · assumption
  · cases applies

/-- A template and types for its parameters give a type that shows the template filled with what the types
show. -/
theorem apply_of_recognizes (extension : later.Extends base) (owned : base.Owns template.vars)
    (argsKnown : base.RecognizesEach later args) (fits : template.params.length = args.length)
    (level : Level) (quantification : Quantification) :
    ∃ type grown, later.apply level quantification template args = .ok (type, grown) ∧
      grown.Extends later ∧ base.Recognizes grown type ∧
      base.view type = template.viewWith (args.map base.view) := by
  let given := pairUp template.params args
  let instanced := later.instantiateWith level quantification given template.scheme
  have growth : instanced.2.Extends later :=
    later.instantiateWith_extends level quantification given template.scheme
  refine ⟨instanced.1, instanced.2, ?_, growth, ?_, ?_⟩
  · rw [apply, instantiateAt, if_pos fits]
  · intro v occurs
    simp only [instanced, instantiateWith, Ty.leaves_bind, List.mem_flatMap] at occurs
    obtain ⟨source, inBody, inInstance⟩ := occurs
    cases source with
    | free w =>
        cases List.mem_singleton.mp inInstance
        have mentioned : base.Owns (Ty.var v).leaves := owned.singleton (Template.mem_vars inBody)
        exact Recognizes.of_owns (growth.trans extension) mentioned v (.head _)
    | bound param =>
        rw [instanceOf] at inInstance
        cases found : given.lookup param with
        | some arg =>
            rw [found] at inInstance
            have seen := argsKnown arg (Template.mem_of_lookup_pairUp found)
            exact seen.of_extends growth v inInstance
        | none =>
            rw [found] at inInstance
            cases List.mem_singleton.mp inInstance
            obtain ⟨minted, free⟩ := later.free_of_pending level quantification inBody found
            exact ⟨minted, .inr ⟨Nat.le_add_right_of_le extension.nextVar_le, free⟩⟩
  · simp only [instanced, instantiateWith, view, Ty.map, Ty.bind_bind]
    rw [Template.viewWith, Template.fillWith]
    apply Ty.bind_congr _
    intro source inBody
    cases source with
    | free v =>
        have mentioned := owned.singleton (Template.mem_vars inBody)
        simp only [instanceOf, Ty.bind, old?_of_owns mentioned]
    | bound param =>
        simp only [instanceOf, Template.lookup_pairUp_map]
        cases found : given.lookup param with
        | some arg => rfl
        | none =>
            have new : base.nextVar ≤ later.nextVar + (pending template.scheme given).idxOf param :=
              Nat.le_add_right_of_le extension.nextVar_le
            simp only [Ty.bind, Option.map_none, Option.getD_none, old?_eq_none_iff.mpr new]

/-! ## Following links -/

section Unfold

variable {links : List MetaVar} {root : Ty MetaVar} {seenRoot : Ty (Option MetaVar)}

theorem unfolds_bare_of_shows (shows : base.Shows (base.view type.bare)) :
    base.Unfolds [] (base.view type) (base.view type.bare) := by
  rw [← unfolds_bare_iff, ← view_bare]
  exact .here shows

theorem view_bare_of_owns {v : MetaVar} (bareForm : type.bare = .var v) (owned : base.Owns [v]) :
    (base.view type).bare = .var (some v) := by
  rw [← view_bare, bareForm, view, Ty.map, Ty.bind, old?_of_owns owned]

theorem unfolds_of_unfoldWithin (extension : later.Extends base) (recognizes : base.Recognizes later type)
    {fuel : Nat} (unfolds : later.unfoldWithin fuel type = .ok root) :
    base.Recognizes later root ∧ later.Settled root ∧
      ∃ links, base.Unfolds links (base.view type) (base.view root) := by
  -- The last step takes no fuel, so the type is looked at before it is asked whether there is any left.
  induction fuel using Nat.strongRecOn generalizing type with
  | _ fuel inductionHypothesis =>
      rcases recognizes.settled_bare_or_linked extension with
        ⟨settled, shows⟩ | ⟨v, target, bareForm, owned, baseStored, stored⟩
      · rw [unfoldWithin_of_settled settled] at unfolds
        cases unfolds
        exact ⟨recognizes.bare, settled, [], unfolds_bare_of_shows shows⟩
      · cases fuel with
        | zero =>
            rw [unfoldWithin, bareForm] at unfolds
            simp only [stored] at unfolds
            cases unfolds
        | succ fuel =>
            rw [unfoldWithin_of_linked bareForm stored] at unfolds
            have targetOwned : base.Owns target.leaves := owned.of_linked (.head _) baseStored
            obtain ⟨rootKnown, settled, links, further⟩ := inductionHypothesis fuel
              (Nat.lt_succ_self _) (.of_owns extension targetOwned) unfolds
            refine ⟨rootKnown, settled, v :: links, ?_⟩
            rw [← unfolds_bare_iff, view_bare_of_owns bareForm owned]
            exact .link owned baseStored further

theorem unfoldWithin_of_unfolds (extension : later.Extends base) (recognizes : base.Recognizes later type)
    (unfolds : base.Unfolds links (base.view type) seenRoot) {fuel : Nat} (enough : links.length ≤ fuel) :
    ∃ root, later.unfoldWithin fuel type = .ok root ∧ base.view root = seenRoot := by
  induction fuel using Nat.strongRecOn generalizing type links with
  | _ fuel inductionHypothesis =>
      rcases recognizes.settled_bare_or_linked extension with
        ⟨settled, shows⟩ | ⟨v, target, bareForm, owned, baseStored, stored⟩
      · obtain ⟨_, rfl⟩ := unfolds.unique (unfolds_bare_of_shows shows)
        exact ⟨type.bare, unfoldWithin_of_settled settled fuel, rfl⟩
      · rw [← unfolds_bare_iff, view_bare_of_owns bareForm owned] at unfolds
        cases unfolds with
        | here shows =>
            obtain ⟨record, free⟩ := shows
            cases baseStored.symm.trans free
        | link _ otherStored further =>
            cases baseStored.symm.trans otherStored
            cases fuel with
            | zero => exact absurd enough (Nat.not_succ_le_zero _)
            | succ fuel =>
                have targetOwned : base.Owns target.leaves := owned.of_linked (.head _) baseStored
                rw [unfoldWithin_of_linked bareForm stored]
                exact inductionHypothesis fuel (Nat.lt_succ_self _) (.of_owns extension targetOwned)
                  further (Nat.le_of_succ_le_succ enough)

theorem length_le_size_of_linked (extension : later.Extends base) (distinct : links.Nodup)
    (linked : ∀ v ∈ links, base.Owns [v] ∧ ∃ target, base.cells.get? v = some (.linked target)) :
    links.length ≤ later.cells.size := by
  refine Table.length_le_size distinct fun v among => ?_
  obtain ⟨minted, known⟩ := (linked v among).1 v (.here (.head _))
  rwa [extension.kept v minted]

theorem unfold_of_unfolds (extension : later.Extends base) (recognizes : base.Recognizes later type)
    (unfolds : base.Unfolds links (base.view type) seenRoot) :
    ∃ root, later.unfold type = .ok root ∧ base.view root = seenRoot :=
  unfoldWithin_of_unfolds extension recognizes unfolds
    (length_le_size_of_linked extension unfolds.nodup unfolds.owned)

end Unfold

end Store

namespace Environment

variable {env : Environment} {base later grown : Store} {level : Level} {type found : Ty MetaVar}

theorem aliasAt?_view (root : Ty MetaVar) :
    env.aliasAt? (base.view root)
      = (env.aliasAt? root).map fun application => (application.1, application.2.map base.view) := by
  cases root with
  | data con args =>
      rw [Store.view_data, aliasAt?, aliasAt?]
      split
      · rfl
      · rfl
  | _ => rfl

/-! ## Expanding -/

/-- Whether a later store expands a type to what it unrolls to, and has only minted variables for it. -/
structure ExpandsTo (env : Environment) (base later : Store) (type found : Ty MetaVar) (grown : Store) :
    Prop where
  growth : grown.Extends later
  recognizes : base.Recognizes grown found
  unrolls : ∃ links steps, env.Unrolls base links steps (base.view type) (base.view found)

theorem expandsTo_of_expandWithin (owned : env.OwnedBy base) (extension : later.Extends base)
    (recognizes : base.Recognizes later type) {fuel : Nat}
    (expands : env.expandWithin level fuel later type = .ok (found, grown)) :
    env.ExpandsTo base later type found grown := by
  induction fuel using Nat.strongRecOn generalizing later type with
  | _ fuel inductionHypothesis =>
      rw [expandWithin] at expands
      obtain ⟨root, unfolds, expands⟩ := ok_of_bind expands
      obtain ⟨rootKnown, _, links, unfolded⟩ := Store.unfolds_of_unfoldWithin extension recognizes unfolds
      cases isAlias : env.aliasAt? root with
      | none =>
          simp only [isAlias] at expands
          cases expands
          refine ⟨.refl _, rootKnown, links, 0, .here unfolded ?_⟩
          rw [aliasAt?_view, isAlias, Option.map_none]
      | some application =>
          obtain ⟨con, args⟩ := application
          obtain ⟨rfl, abbreviates⟩ := eq_data_of_aliasAt? isAlias
          simp only [isAlias] at expands
          split at expands
          · cases expands
          · rename_i template isBody
            cases fuel with
            | zero => cases expands
            | succ fuel =>
                obtain ⟨⟨body, next⟩, applies, expands⟩ := ok_of_bind expands
                have fits : template.params.length = args.length := Store.length_eq_of_apply applies
                obtain ⟨_, _, otherwise, growth, bodyKnown, bodyView⟩ :=
                  Store.apply_of_recognizes extension (owned.bodies isBody) (.of_leavesList rootKnown)
                    fits level .allowed
                cases applies.symm.trans otherwise
                obtain ⟨further, foundKnown, more, steps, unrolls⟩ := inductionHypothesis fuel
                  (Nat.lt_succ_self _) (growth.trans extension) bodyKnown expands
                rw [bodyView] at unrolls
                rw [Store.view_data] at unfolded
                exact ⟨further.trans growth, foundKnown, _, _,
                  .behind unfolded abbreviates isBody (fits.trans (List.length_map _).symm) unrolls⟩

theorem expandWithin_of_unrolls (owned : env.OwnedBy base) {links : List MetaVar} {steps : Nat}
    {seen root : Ty (Option MetaVar)} (unrolls : env.Unrolls base links steps seen root)
    (extension : later.Extends base) (recognizes : base.Recognizes later type)
    (isSeen : base.view type = seen)
    {fuel : Nat} (enough : steps ≤ fuel) :
    ∃ result, env.expandWithin level fuel later type = .ok result := by
  induction unrolls generalizing later type fuel with
  | here unfolds notAlias =>
      rw [← isSeen] at unfolds
      obtain ⟨first, runs, rfl⟩ := Store.unfold_of_unfolds extension recognizes unfolds
      rw [aliasAt?_view, Option.map_eq_none_iff] at notAlias
      rw [expandWithin, runs]
      simp only [bind, Except.bind, notAlias]
      exact ⟨_, rfl⟩
  | @behind _ _ _ _ _ con args template unfolds abbreviates isBody fits _ inductionHypothesis =>
      rw [← isSeen] at unfolds
      obtain ⟨first, runs, firstView⟩ := Store.unfold_of_unfolds extension recognizes unfolds
      obtain ⟨firstKnown, _⟩ := Store.unfolds_of_unfoldWithin extension recognizes runs
      obtain ⟨given, rfl, rfl⟩ := Store.eq_data_of_view firstView
      have isAlias : env.aliasAt? (.data con given) = some (con, given) := if_pos abbreviates
      rw [List.length_map] at fits
      obtain ⟨body, grown, applies, growth, bodyKnown, bodyView⟩ :=
        Store.apply_of_recognizes extension (owned.bodies isBody) (.of_leavesList firstKnown) fits level
          .allowed
      cases fuel with
      | zero => exact absurd enough (Nat.not_succ_le_zero _)
      | succ fuel =>
          rw [expandWithin, runs]
          simp only [bind, Except.bind, isAlias, isBody, applies]
          exact inductionHypothesis (growth.trans extension) bodyKnown bodyView
            (Nat.le_of_succ_le_succ enough)

end Environment

end TypedMatch
