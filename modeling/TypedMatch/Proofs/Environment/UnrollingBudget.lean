import TypedMatch.Proofs.Environment.Unrolled

/-!
# How long an unrolling takes

An outline goes as deep as there are cells, and where links lead back to themselves it is cut off there.  It
still tells how many aliases give way to their bodies before something else is at the root of a type: no
variable is followed twice, so there are no more links on the way than there are cells.  Below, every
variable of a type carries the depth to which its outline goes, and that is at least the number of links
that are left to follow.

So an unrolling takes no more steps than the budget allows, and a type is expanded if and only if it unrolls
to something.
-/

set_option autoImplicit false

namespace TypedMatch

/-! ## Depths -/

namespace Store

def outlineAt (later : Store) : Option (MetaVar × Nat) → Ty Unit
  | none => .var ()
  | some (v, depth) => later.outlineVar depth v

/-- Whether a type is another one whose variables carry at least so much depth. -/
structure Carries (depth : Nat) (deep : Ty (Option (MetaVar × Nat))) (seen : Ty (Option MetaVar)) :
    Prop where
  same : deep.map (Option.map Prod.fst) = seen
  enough : ∀ v carried, some (v, carried) ∈ deep.leaves → depth ≤ carried

variable {base later : Store} {links : List MetaVar} {depth left : Nat}
  {deep : Ty (Option (MetaVar × Nat))} {seen root : Ty (Option MetaVar)} {type : Ty MetaVar}

theorem Carries.mono (carries : Carries depth deep seen) (less : left ≤ depth) :
    Carries left deep seen :=
  ⟨carries.same, fun v carried occurs => Nat.le_trans less (carries.enough v carried occurs)⟩

theorem Carries.of_synonym {con : TyCon} {args : List (Ty (Option MetaVar))}
    {expansion : Ty (Option MetaVar)} (carries : Carries depth deep (.synonym con args expansion)) :
    ∃ deepArgs inner, deep = .synonym con deepArgs inner ∧ Carries depth inner expansion := by
  obtain ⟨same, enough⟩ := carries
  cases deep with
  | synonym head deepArgs inner =>
      obtain ⟨rfl, _, sameInner⟩ := Ty.synonym.inj same
      refine ⟨deepArgs, inner, rfl, sameInner, fun v carried occurs => enough v carried ?_⟩
      exact List.mem_append_right _ occurs
  | _ => cases same

theorem Carries.of_var {v : MetaVar} (carries : Carries depth deep (.var (some v))) :
    ∃ carried, deep = .var (some (v, carried)) ∧ depth ≤ carried := by
  obtain ⟨_, rfl, sameVar⟩ := Ty.eq_var_of_map_eq carries.same
  obtain ⟨⟨_, carried⟩, rfl, rfl⟩ := Option.map_eq_some_iff.mp sameVar
  exact ⟨carried, rfl, carries.enough _ carried (.head _)⟩

theorem Carries.of_data {con : TyCon} {args : List (Ty (Option MetaVar))}
    (carries : Carries depth deep (.data con args)) :
    ∃ deepArgs, deep = .data con deepArgs ∧ List.Forall₂ (Carries depth) deepArgs args := by
  obtain ⟨same, enough⟩ := carries
  cases deep with
  | data head deepArgs =>
      obtain ⟨rfl, sameArgs⟩ := Ty.data.inj same
      rw [Ty.bindList_eq_map] at sameArgs
      refine ⟨deepArgs, rfl, ?_⟩
      rw [← sameArgs, List.forall₂_map_right_iff, List.forall₂_same]
      exact fun arg among => ⟨rfl, fun v carried occurs =>
        enough v carried (Ty.mem_leavesList.mpr ⟨arg, among, occurs⟩)⟩
  | _ => cases same

def viewAt (base : Store) (depth : Nat) (type : Ty MetaVar) : Ty (Option (MetaVar × Nat)) :=
  type.map fun v => (base.old? v).map fun v => (v, depth)

theorem carries_viewAt (base : Store) (depth : Nat) (type : Ty MetaVar) :
    Carries depth (base.viewAt depth type) (base.view type) where
  same := by
    simp only [viewAt, view, Ty.map, Ty.bind_bind, Ty.bind, Option.map_map, Function.comp_def,
      Option.map_id']
  enough := by
    intro v carried occurs
    rw [viewAt, Ty.leaves_map, List.mem_map] at occurs
    obtain ⟨w, _, isLabel⟩ := occurs
    obtain ⟨_, _, same⟩ := Option.map_eq_some_iff.mp isLabel
    cases same
    exact Nat.le_refl _

theorem resolve_viewAt_of_owns (owned : base.Owns type.leaves) (later : Store) (depth : Nat) :
    (base.viewAt depth type).resolve later.outlineAt = type.resolve (later.outlineVar depth) := by
  rw [viewAt, Ty.map, Ty.resolve_bind]
  refine Ty.resolve_congr _ fun v occurs => ?_
  rw [Ty.resolve, old?_of_owns (owned.singleton occurs)]
  rfl

theorem resolve_viewAt_of_recognizes (recognizes : base.Recognizes later type) :
    (base.viewAt later.cells.size type).resolve later.outlineAt = later.outline type := by
  rw [viewAt, Ty.map, Ty.resolve_bind, outline]
  refine Ty.resolve_congr _ fun v occurs => ?_
  rw [Ty.resolve]
  cases new : base.old? v with
  | none =>
      obtain ⟨_, free⟩ := (recognizes v occurs).2.free_of_new (old?_eq_none_iff.mp new)
      exact (outlineOf_of_free free).symm
  | some w =>
      rw [eq_of_old?_eq_some new]
      rfl

theorem Carries.unfolds (extension : later.Extends base) (unfolds : base.Unfolds links seen root)
    (carries : Carries (links.length + left) deep seen) :
    ∃ deepRoot, Carries left deepRoot root ∧
      deepRoot.resolve later.outlineAt = deep.resolve later.outlineAt := by
  -- Behind a link the type is another one, which carries one less than the variable did, everywhere.
  induction unfolds generalizing deep with
  | here _ => exact ⟨deep, carries.mono (Nat.le_add_left _ _), rfl⟩
  | synonym _ inductionHypothesis =>
      obtain ⟨_, inner, rfl, innerCarries⟩ := carries.of_synonym
      obtain ⟨deepRoot, rootCarries, sameOutline⟩ := inductionHypothesis innerCarries
      exact ⟨deepRoot, rootCarries, sameOutline⟩
  | @link links v target root owned stored _ inductionHypothesis =>
      obtain ⟨carried, rfl, enough⟩ := carries.of_var
      rw [List.length_cons, Nat.add_right_comm] at enough
      obtain ⟨depth, rfl⟩ := Nat.exists_eq_succ_of_ne_zero (Nat.ne_zero_of_lt enough)
      have laterStored := (extension.kept v (owned v (.here (.head _))).1).trans stored
      have targetOwned : base.Owns target.leaves := owned.of_linked (.head _) stored
      obtain ⟨deepRoot, rootCarries, sameOutline⟩ := inductionHypothesis
        ((base.carries_viewAt depth target).mono (Nat.le_of_succ_le_succ enough))
      refine ⟨deepRoot, rootCarries, ?_⟩
      rw [sameOutline, resolve_viewAt_of_owns targetOwned]
      simp only [Ty.resolve, outlineAt, outlineVar, laterStored]

theorem Carries.viewWith {template : Template} {deepArgs : List (Ty (Option (MetaVar × Nat)))}
    {args : List (Ty (Option MetaVar))} {size : Nat} (enough : depth ≤ size)
    (carries : List.Forall₂ (Carries depth) deepArgs args) :
    Carries depth (template.fillWith (fun v => .var (some (v, size))) (.var none) deepArgs)
      (template.viewWith args) where
  same := by
    have sameArgs : deepArgs.map (fun arg => arg.map (Option.map Prod.fst)) = args := by
      rw [← List.forall₂_eq_eq_eq, List.forall₂_map_left_iff]
      exact carries.imp fun _ _ argCarries => argCarries.same
    rw [Template.viewWith, ← sameArgs, Ty.map, Template.bind_fillWith]
    rfl
  enough := by
    intro v carried occurs
    rw [Template.fillWith, Ty.leaves_bind, List.mem_flatMap] at occurs
    obtain ⟨source, _, inFilled⟩ := occurs
    cases source with
    | free w =>
        cases List.mem_singleton.mp inFilled
        exact enough
    | bound param =>
        rcases Template.lookup_pairUp_of_forall₂ carries template.params param with
          ⟨missing, _⟩ | ⟨arg, _, given, _, argCarries⟩
        · simp only [missing, Option.getD_none] at inFilled
          cases List.mem_singleton.mp inFilled
        · simp only [given, Option.getD_some] at inFilled
          exact argCarries.enough v carried inFilled

theorem resolve_fillWith (template : Template) (deepArgs : List (Ty (Option (MetaVar × Nat)))) :
    (template.fillWith (fun v => .var (some (v, later.cells.size))) (.var none) deepArgs).resolve
        later.outlineAt
      = (template.outline later).fill (deepArgs.map fun arg => arg.resolve later.outlineAt) := by
  rw [Template.fillWith, Ty.resolve_bind, Template.fill, Template.outline, Ty.bind_resolve]
  apply Ty.resolve_congr _
  intro source _
  cases source with
  | free v =>
      simp only [Ty.resolve, outlineAt, Ty.map, Ty.bind_bind, Ty.bind, Template.argument]
      exact (Ty.bind_var _).symm
  | bound param =>
      simp only [Ty.bind, Template.argument, Template.lookup_pairUp_map]
      cases (pairUp template.params deepArgs).lookup param with
      | none => rfl
      | some arg => rfl

end Store

namespace Environment

variable {env : Environment} {base later grown : Store} {links : List MetaVar} {steps : Nat}
  {deep : Ty (Option (MetaVar × Nat))} {seen root : Ty (Option MetaVar)} {level : Level}
  {type : Ty MetaVar}

theorem aliasAt?_resolve_eq_none (extension : later.Extends base) (shows : base.Shows root)
    (notAlias : env.aliasAt? root = none) {depth : Nat} (carries : Store.Carries depth deep root) :
    (env.outline later).aliasAt? (deep.resolve later.outlineAt) = none := by
  cases deep with
  | var label =>
      cases label with
      | none => rfl
      | some label =>
          obtain ⟨v, carried⟩ := label
          cases carries.same
          obtain ⟨record, free⟩ := shows
          rw [Ty.resolve, Store.outlineAt, Store.outlineVar_of_not_linked]
          · rfl
          · intro target stored
            cases free.symm.trans (extension.linked stored)
  | data con deepArgs =>
      cases carries.same
      exact aliasAt?_data_eq_none.mpr (aliasAt?_data_eq_none.mp notAlias)
  | synonym _ _ _ =>
      cases carries.same
      exact shows.elim
  | _ => rfl

theorem Unrolls.rootWithin (extension : later.Extends base)
    (unrolls : env.Unrolls base links steps seen root) (room : links.length ≤ later.cells.size)
    (carries : Store.Carries links.length deep seen) :
    ∃ last, (env.outline later).RootWithin steps (deep.resolve later.outlineAt) last := by
  induction unrolls generalizing deep with
  | @here links seen _ unfolds notAlias =>
      have noneLeft : Store.Carries (links.length + 0) deep seen := carries
      obtain ⟨deepRoot, rootCarries, sameOutline⟩ := noneLeft.unfolds extension unfolds
      rw [← sameOutline]
      exact ⟨_, .here (aliasAt?_resolve_eq_none extension unfolds.shows notAlias rootCarries)⟩
  | behind unfolds abbreviates isBody fits _ inductionHypothesis =>
      rw [List.length_append] at carries room
      obtain ⟨deepRoot, rootCarries, sameOutline⟩ := carries.unfolds extension unfolds
      obtain ⟨deepArgs, rfl, argsCarry⟩ := rootCarries.of_data
      have moreRoom := Nat.le_trans (Nat.le_add_left _ _) room
      obtain ⟨last, stands⟩ := inductionHypothesis moreRoom (.viewWith moreRoom argsCarry)
      rw [Store.resolve_fillWith] at stands
      rw [← sameOutline, Ty.resolve, Ty.resolveList_eq_map]
      refine ⟨last, .behind abbreviates (Option.map_eq_some_iff.mpr ⟨_, isBody, rfl⟩) ?_ stands⟩
      rw [List.length_map, argsCarry.length_eq]
      exact fits

theorem Unrolls.steps_le_budget (extension : later.Extends base) (recognizes : base.Recognizes later type)
    (unrolls : env.Unrolls base links steps (base.view type) root) : steps ≤ env.budget later type := by
  have room : links.length ≤ later.cells.size :=
    Store.length_le_size_of_linked extension unrolls.nodup unrolls.owned
  have carries := base.carries_viewAt later.cells.size type
  obtain ⟨last, stands⟩ := unrolls.rootWithin extension room (carries.mono room)
  rw [Store.resolve_viewAt_of_recognizes recognizes] at stands
  exact Environment.steps_le_budget stands

/-! ## Expanding -/

theorem expandsTo_of_expand (owned : env.OwnedBy base) (extension : later.Extends base)
    (recognizes : base.Recognizes later type) {found : Ty MetaVar}
    (expands : env.expand level later type = .ok (found, grown)) :
    env.ExpandsTo base later type found grown := by
  rw [expand] at expands
  obtain ⟨first, unfolds, expands⟩ := ok_of_bind expands
  obtain ⟨firstKnown, _, _, unfolded⟩ := Store.unfolds_of_unfoldWithin extension recognizes unfolds
  split at expands
  · rename_i notAlias
    cases expands
    refine ⟨.refl _, firstKnown, _, 0, .here unfolded ?_⟩
    rw [aliasAt?_view, notAlias, Option.map_none]
  · obtain ⟨growth, foundKnown, _, steps, unrolls⟩ :=
      expandsTo_of_expandWithin owned extension firstKnown expands
    obtain ⟨way, unrolls⟩ := unrolls.of_unfolds (.here unfolded.shows) unfolded
    exact ⟨growth, foundKnown, way, steps, unrolls⟩

theorem expand_of_unrolls (owned : env.OwnedBy base) (extension : later.Extends base)
    (recognizes : base.Recognizes later type) (unrolls : env.Unrolls base links steps (base.view type) root) :
    ∃ found grown, env.expand level later type = .ok (found, grown) ∧
      env.ExpandsTo base later type found grown := by
  have succeeds : ∃ result, env.expand level later type = .ok result := by
    obtain ⟨_, _, unfolds⟩ : ∃ links middle, base.Unfolds links (base.view type) middle := by
      cases unrolls with
      | here unfolds _ => exact ⟨_, _, unfolds⟩
      | behind unfolds _ _ _ _ => exact ⟨_, _, unfolds⟩
    obtain ⟨first, runs, rfl⟩ := Store.unfold_of_unfolds extension recognizes unfolds
    obtain ⟨firstKnown, _⟩ := Store.unfolds_of_unfoldWithin extension recognizes runs
    obtain ⟨_, further⟩ := unrolls.of_unfolds unfolds (.here unfolds.shows)
    rw [expand, runs]
    simp only [bind, Except.bind]
    split
    · exact ⟨_, rfl⟩
    · exact expandWithin_of_unrolls owned further extension firstKnown rfl
        (further.steps_le_budget extension firstKnown)
  obtain ⟨⟨found, grown⟩, expands⟩ := succeeds
  exact ⟨found, grown, expands, expandsTo_of_expand owned extension recognizes expands⟩

end Environment

end TypedMatch
