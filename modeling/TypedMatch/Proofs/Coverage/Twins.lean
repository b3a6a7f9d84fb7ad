import TypedMatch.Proofs.Coverage.Finds
import TypedMatch.Proofs.Coverage.Minting
import TypedMatch.Proofs.Store.Twins

/-!
# Checks in stores that grow alike

A check that succeeds in one store succeeds in a store that grows alike, at any level, with the same
findings.  Both runs expand the same aliases, list the same heads and mint the same number of variables,
step by step.  Links may lead back to themselves: a run that succeeds has not followed such links.
-/

set_option autoImplicit false

namespace TypedMatch

open Store (Twins Echoes)

variable {env : Environment} {base store other grown : Store} {type image : Ty MetaVar} {level : Level}

namespace Store

theorem Mirrors.of_ok {Result : Type} {result : Result} {wanted : Result → Store → Prop}
    (holds : wanted result other) : other.Mirrors (.ok (result, other)) store store wanted :=
  ⟨result, other, 0, rfl, .none, .none, holds⟩

theorem Mirrors.after {Result : Type} {run : Except Fault (Result × Store)} {middle otherMiddle : Store}
    {count : Nat} {wanted : Result → Store → Prop} (mints : store.Mints count middle)
    (otherMints : other.Mints count otherMiddle) (rest : otherMiddle.Mirrors run middle grown wanted) :
    other.Mirrors run store grown wanted := by
  obtain ⟨result, otherGrown, more, runs, further, otherFurther, holds⟩ := rest
  exact ⟨result, otherGrown, count + more, runs, mints.trans further, otherMints.trans otherFurther, holds⟩

theorem Mirrors.map {First Result : Type} {run : Except Fault (First × Store)}
    {wantedFirst : First → Store → Prop} {wanted : Result → Store → Prop}
    (first : other.Mirrors run store grown wantedFirst) (change : First → Result)
    (holds : ∀ result otherGrown, wantedFirst result otherGrown → wanted (change result) otherGrown) :
    other.Mirrors (run.map fun found => (change found.1, found.2)) store grown wanted := by
  obtain ⟨result, otherGrown, count, rfl, mints, otherMints, isWanted⟩ := first
  exact ⟨change result, otherGrown, count, rfl, mints, otherMints, holds result otherGrown isWanted⟩

end Store

/-! ## Aliases -/

namespace Environment

theorem aliasAt?_of_echoes (env : Environment) (echoes : Echoes base store other type image) :
    (env.aliasAt? type = none ∧ env.aliasAt? image = none) ∨
    ∃ con args images, env.aliasAt? type = some (con, args) ∧
      env.aliasAt? image = some (con, images) ∧
      List.Forall₂ (Echoes base store other) args images := by
  by_cases isData : ∃ con args, type = .data con args
  · obtain ⟨con, args, rfl⟩ := isData
    obtain ⟨images, rfl, argsEcho⟩ := echoes.of_data
    by_cases abbreviates : env.abbreviates con = true
    · exact .inr ⟨con, args, images, if_pos abbreviates, if_pos abbreviates, argsEcho⟩
    · exact .inl ⟨if_neg abbreviates, if_neg abbreviates⟩
  · refine .inl ?_
    have same := echoes.same
    cases type with
    | data con args => exact absurd ⟨con, args, rfl⟩ isData
    | _ =>
        cases image with
        | data con args => cases same
        | _ => exact ⟨rfl, rfl⟩

theorem budget_le_of_twins (twins : Twins base store other)
    (echoes : Echoes base store other type image) : env.budget store type ≤ env.budget other image := by
  have sameSize : type.size = image.size := by
    rw [← Ty.size_map base.old? type, echoes.same, Ty.size_map]
  have more : store.cells.size * store.linkedSize ≤ other.cells.size * other.linkedSize :=
    Nat.mul_le_mul twins.size_le twins.linkedSize_le
  simp only [budget, Nat.pow_eq, sameSize]
  exact Nat.pow_le_pow_left (by omega) _

theorem expandWithin_mirrors (owned : env.OwnedBy base) (otherLevel : Level) {root : Ty MetaVar}
    {fuel more : Nat} (enough : fuel ≤ more) (twins : Twins base store other)
    (echoes : Echoes base store other type image)
    (expands : env.expandWithin level fuel store type = .ok (root, grown)) :
    other.Mirrors (env.expandWithin otherLevel more other image) store grown
      fun imageRoot otherGrown => Echoes base grown otherGrown root imageRoot := by
  induction fuel using Nat.strongRecOn generalizing more store other type image with
  | _ fuel inductionHypothesis =>
      rw [expandWithin] at expands ⊢
      obtain ⟨found, unfolds, expands⟩ := ok_of_bind expands
      obtain ⟨imageFound, imageUnfolds, foundEchoes, _, _⟩ := echoes.unfold twins unfolds
      rw [imageUnfolds]
      rcases aliasAt?_of_echoes env foundEchoes with
        ⟨notAlias, imageNotAlias⟩ | ⟨con, args, images, isAlias, imageIsAlias, argsEcho⟩
      · simp only [notAlias] at expands
        cases expands
        simp only [bind, Except.bind, imageNotAlias]
        exact .of_ok foundEchoes
      · simp only [isAlias] at expands
        simp only [bind, Except.bind, imageIsAlias]
        cases isBody : env.body? con with
        | none =>
            rw [isBody] at expands
            cases expands
        | some template =>
            simp only [isBody] at expands
            cases fuel with
            | zero => cases expands
            | succ fuel =>
                obtain ⟨⟨body, next⟩, applies, expands⟩ := ok_of_bind expands
                obtain ⟨imageBody, imageNext, count, imageApplies, mints, otherMints, bodyEchoes⟩ :=
                  Echoes.apply twins (owned.bodies isBody) argsEcho applies otherLevel
                obtain ⟨more, rfl⟩ := Nat.exists_eq_add_of_lt enough
                simp only [imageApplies]
                exact .after mints otherMints
                  (inductionHypothesis fuel (Nat.lt_succ_self _) (Nat.le_add_right _ _)
                    (twins.mints mints otherMints) bodyEchoes expands)

theorem expand_mirrors (owned : env.OwnedBy base) (otherLevel : Level) {root : Ty MetaVar}
    (twins : Twins base store other) (echoes : Echoes base store other type image)
    (expands : env.expand level store type = .ok (root, grown)) :
    other.Mirrors (env.expand otherLevel other image) store grown
      fun imageRoot otherGrown => Echoes base grown otherGrown root imageRoot := by
  rw [expand] at expands ⊢
  obtain ⟨found, unfolds, expands⟩ := ok_of_bind expands
  obtain ⟨imageFound, imageUnfolds, foundEchoes, _, _⟩ := echoes.unfold twins unfolds
  rw [imageUnfolds]
  simp only [bind, Except.bind]
  rcases aliasAt?_of_echoes env foundEchoes with
    ⟨notAlias, imageNotAlias⟩ | ⟨con, args, images, isAlias, imageIsAlias, _⟩
  · simp only [notAlias] at expands
    cases expands
    simp only [imageNotAlias]
    exact .of_ok foundEchoes
  · simp only [isAlias] at expands
    simp only [imageIsAlias]
    exact expandWithin_mirrors owned otherLevel (budget_le_of_twins twins foundEchoes) twins
      foundEchoes expands

end Environment

/-! ## Heads -/

namespace Head

/-- Whether heads are the same but for variables that have been minted since. -/
structure Echoes (base store other : Store) (head image : Head MetaVar) : Prop where
  same : head.retype (Ty.map base.old?) = image.retype (Ty.map base.old?)
  slots : List.Forall₂ (Store.Echoes base store other) head.slots image.slots

variable {head imageHead : Head MetaVar}

theorem Echoes.of_slots_eq_nil (noSlots : head.slots = []) : Echoes base store other head head where
  same := rfl
  slots := by
    rw [noSlots]
    exact .nil

theorem Echoes.mints {otherGrown : Store} {count : Nat} (echoes : Echoes base store other head imageHead)
    (twins : Twins base store other) (mints : store.Mints count grown)
    (otherMints : other.Mints count otherGrown) : Echoes base grown otherGrown head imageHead where
  same := echoes.same
  slots := echoes.slots.imp fun _ _ slotEchoes => slotEchoes.mints twins mints otherMints

theorem Echoes.keptRows_eq (echoes : Echoes base store other head imageHead) (rows : List Row) :
    keptRows imageHead rows = keptRows head rows := by
  rw [← keptRows_retype (Ty.map base.old?) imageHead, ← echoes.same, keptRows_retype]

theorem Echoes.fold_eq (echoes : Echoes base store other head imageHead) :
    Hole.fold imageHead = Hole.fold head := by
  rw [← Hole.fold_retype (Ty.map base.old?) imageHead, ← echoes.same, Hole.fold_retype]

theorem Echoes.ofRoot {payload imagePayload root imageRoot : Ty MetaVar}
    (payloadEchoes : Store.Echoes base store other payload imagePayload)
    (rootEchoes : Store.Echoes base store other root imageRoot) (name : String) :
    Echoes base store other (ofRoot name payload root) (ofRoot name imagePayload imageRoot) := by
  by_cases isUnit : root = .base .unit
  · subst isUnit
    cases rootEchoes.of_base
    exact .of_slots_eq_nil rfl
  · have imageNotUnit : imageRoot ≠ .base .unit := by
      rintro rfl
      exact isUnit rootEchoes.symm.of_base
    have isApplied : ∀ {carried found : Ty MetaVar}, found ≠ .base .unit →
        Head.ofRoot name carried found = .applied name carried := by
      intro carried found notUnit
      unfold Head.ofRoot
      split
      · exact absurd rfl notUnit
      · rfl
    rw [isApplied isUnit, isApplied imageNotUnit]
    exact ⟨congrArg (Head.applied name) payloadEchoes.same, .cons payloadEchoes .nil⟩

end Head

section Heads

variable {column : List Shape} {heads : List (Head MetaVar)}

theorem constructorHeads_mirrors (otherLevel : Level) {args images : List (Ty MetaVar)}
    {constructors : List Constructor}
    (owned : ∀ constructor ∈ constructors, base.Owns constructor.payload.vars)
    (twins : Twins base store other) (argsEcho : List.Forall₂ (Echoes base store other) args images)
    (runs : constructorHeads level args store constructors = .ok (heads, grown)) :
    other.Mirrors (constructorHeads otherLevel images other constructors) store grown
      fun imageHeads otherGrown =>
        List.Forall₂ (Head.Echoes base grown otherGrown) heads imageHeads := by
  induction constructors generalizing store other heads grown with
  | nil =>
      cases runs
      exact .of_ok .nil
  | cons constructor rest inductionHypothesis =>
      rw [constructorHeads] at runs ⊢
      obtain ⟨firstOwned, restOwned⟩ := List.forall_mem_cons.mp owned
      obtain ⟨⟨payload, first⟩, applies, runs⟩ := ok_of_bind runs
      obtain ⟨root, unfolds, runs⟩ := ok_of_bind runs
      obtain ⟨⟨others, last⟩, further, runs⟩ := ok_of_bind runs
      cases runs
      obtain ⟨imagePayload, otherFirst, count, imageApplies, mints, otherMints, payloadEchoes⟩ :=
        Echoes.apply twins firstOwned argsEcho applies otherLevel
      have firstTwins := twins.mints mints otherMints
      obtain ⟨imageRoot, imageUnfolds, rootEchoes, _, _⟩ := payloadEchoes.unfold firstTwins unfolds
      have headEchoes := Head.Echoes.ofRoot payloadEchoes rootEchoes constructor.name
      obtain ⟨imageHeads, otherLast, more, imageRuns, lastMints, otherLastMints, headsEcho⟩ :=
        inductionHypothesis restOwned firstTwins
          (argsEcho.imp fun _ _ echoes => echoes.mints twins mints otherMints) further
      refine ⟨_, otherLast, count + more, ?_, mints.trans lastMints, otherMints.trans otherLastMints,
        .cons (headEchoes.mints firstTwins lastMints otherLastMints) headsEcho⟩
      rw [imageApplies]
      simp only [bind, Except.bind, imageUnfolds, imageRuns]
      rfl

theorem Environment.heads_mirrors (owned : env.OwnedBy base) (otherLevel : Level)
    (twins : Twins base store other) (echoes : Echoes base store other type image)
    (runs : env.heads level store type column = .ok (heads, grown)) :
    other.Mirrors (env.heads otherLevel other image column) store grown
      fun imageHeads otherGrown =>
        List.Forall₂ (Head.Echoes base grown otherGrown) heads imageHeads := by
  rw [Environment.heads] at runs ⊢
  obtain ⟨⟨root, next⟩, expands, runs⟩ := ok_of_bind runs
  obtain ⟨imageRoot, otherNext, count, imageExpands, mints, otherMints, rootEchoes⟩ :=
    expand_mirrors owned otherLevel twins echoes expands
  rw [imageExpands]
  refine .after mints otherMints ?_
  have nextTwins := twins.mints mints otherMints
  have noSlots : ∀ {listed : List (Head MetaVar)}, (∀ head ∈ listed, head.slots = []) →
      List.Forall₂ (Head.Echoes base next otherNext) listed listed := fun none =>
    List.forall₂_same.mpr fun head among => .of_slots_eq_nil (none head among)
  cases root with
  | base kind =>
      cases rootEchoes.of_base
      cases kind with
      | unit | bool =>
          cases runs
          exact .of_ok (noSlots (by simp [Head.slots]))
      | int | string =>
          cases runs
          refine .of_ok (noSlots ?_)
          refine List.forall_mem_append.mpr ⟨?_, List.forall_mem_singleton.mpr rfl⟩
          exact List.forall_mem_map.mpr fun _ _ => rfl
      | _ =>
          obtain ⟨_, _, runs⟩ := ok_of_bind runs
          cases runs
  | list element =>
      obtain ⟨imageElement, rfl, elementEchoes⟩ := rootEchoes.of_list
      cases runs
      refine .of_ok (.cons ⟨?_, ?_⟩ (.cons (.of_slots_eq_nil rfl) .nil))
      · exact congrArg Head.cons elementEchoes.same
      · exact .cons elementEchoes (.cons rootEchoes .nil)
  | product components =>
      obtain ⟨images, rfl, componentsEcho⟩ := rootEchoes.of_product
      simp only [bind, Except.bind, ← componentsEcho.length_eq]
      dsimp only at runs
      split at runs
      · cases runs
      · cases runs
        have sameComponents :
            components.map (Ty.map base.old?) = images.map (Ty.map base.old?) := by
          rw [← List.forall₂_eq_eq_eq, List.forall₂_map_left_iff, List.forall₂_map_right_iff]
          exact componentsEcho.imp fun _ _ component => component.same
        exact .of_ok (.cons ⟨congrArg Head.tuple sameComponents, componentsEcho⟩ .nil)
  | data con args =>
      obtain ⟨images, rfl, argsEcho⟩ := rootEchoes.of_data
      simp only [bind, Except.bind]
      dsimp only at runs
      split at runs
      · cases runs
      · rename_i constructors declared
        split at runs
        · cases runs
        · exact constructorHeads_mirrors otherLevel (owned.payloads declared) nextTwins argsEcho runs
  | _ =>
      obtain ⟨_, _, runs⟩ := ok_of_bind runs
      cases runs

/-! ## Checks -/

theorem coverHeads_mirrors (otherLevel : Level) {rows : List Row} {asks : rows.all Row.skips = false}
    {rest imageRest : List (Ty MetaVar)} {imageHeads : List (Head MetaVar)} {findings : Findings}
    (each : ∀ (head : Head MetaVar) (slots : List (Ty MetaVar)) {store other grown : Store}
      {findings : Findings}, Twins base store other →
      List.Forall₂ (Echoes base store other) (head.slots ++ rest) slots →
      cover env level store (keptRows head rows) (head.slots ++ rest) = .ok (findings, grown) →
      other.Mirrors (cover env otherLevel other (keptRows head rows) slots) store grown
        fun found _ => found = findings)
    (twins : Twins base store other)
    (headsEcho : List.Forall₂ (Head.Echoes base store other) heads imageHeads)
    (restEcho : List.Forall₂ (Echoes base store other) rest imageRest)
    (runs : coverHeads env level store rows rest heads asks = .ok (findings, grown)) :
    other.Mirrors (coverHeads env otherLevel other rows imageRest imageHeads asks) store grown
      fun found _ => found = findings := by
  induction heads generalizing store other imageHeads findings with
  | nil =>
      cases headsEcho
      rw [coverHeads] at runs ⊢
      cases runs
      exact .of_ok rfl
  | cons head heads inductionHypothesis =>
      obtain _ | ⟨headEchoes, headsEcho⟩ := headsEcho
      rename_i imageHead imageHeads
      rw [coverHeads] at runs ⊢
      obtain ⟨⟨inner, next⟩, first, runs⟩ := ok_of_bind runs
      obtain ⟨⟨others, last⟩, further, runs⟩ := ok_of_bind runs
      cases runs
      obtain ⟨_, otherNext, count, imageFirst, mints, otherMints, rfl⟩ :=
        each head _ twins (List.rel_append headEchoes.slots restEcho) first
      -- Both stores have minted as many variables behind this head, so what echoed before still does.
      obtain ⟨_, otherLast, more, imageFurther, lastMints, otherLastMints, rfl⟩ :=
        inductionHypothesis (twins.mints mints otherMints)
          (headsEcho.imp fun _ _ echoes => echoes.mints twins mints otherMints)
          (restEcho.imp fun _ _ echoes => echoes.mints twins mints otherMints) further
      refine ⟨_, otherLast, count + more, ?_, mints.trans lastMints, otherMints.trans otherLastMints, rfl⟩
      rw [headEchoes.keptRows_eq, imageFirst]
      simp only [bind, Except.bind, imageFurther, headEchoes.fold_eq]
      rfl

theorem cover_mirrors (owned : env.OwnedBy base) (otherLevel : Level) {store other grown : Store}
    (rows : List Row) (slots images : List (Ty MetaVar)) {findings : Findings}
    (twins : Twins base store other) (slotsEcho : List.Forall₂ (Echoes base store other) slots images)
    (runs : cover env level store rows slots = .ok (findings, grown)) :
    other.Mirrors (cover env otherLevel other rows images) store grown
      fun found _ => found = findings := by
  match slots, images, slotsEcho with
  | [], [], _ =>
      rw [cover] at runs ⊢
      cases runs
      exact .of_ok rfl
  | slot :: rest, image :: imageRest, .cons slotEchoes restEcho =>
      by_cases empty : rows.isEmpty = true
      · rw [cover, if_pos empty] at runs ⊢
        cases runs
        refine .of_ok ?_
        simp only [Findings.unmatched, List.map_cons, List.map_const', restEcho.length_eq]
      · cases skips : rows.all Row.skips with
        | false =>
            have asking : ¬ rows.all Row.skips = true := by simp [skips]
            rw [cover, if_neg empty, dif_neg asking] at runs ⊢
            obtain ⟨⟨heads, next⟩, listed, runs⟩ := ok_of_bind runs
            obtain ⟨imageHeads, otherNext, count, imageListed, mints, otherMints, headsEcho⟩ :=
              Environment.heads_mirrors owned otherLevel twins slotEchoes listed
            rw [imageListed]
            refine .after mints otherMints (coverHeads_mirrors otherLevel ?_
              (twins.mints mints otherMints) headsEcho
              (restEcho.imp fun _ _ echoes => echoes.mints twins mints otherMints) runs)
            intro head headSlots before otherBefore after inner headTwins headSlotsEcho first
            exact cover_mirrors owned otherLevel (keptRows head rows) (head.slots ++ rest) headSlots
              headTwins headSlotsEcho first
        | true =>
            rw [cover, if_neg empty, dif_pos skips] at runs ⊢
            obtain ⟨⟨inner, last⟩, first, runs⟩ := ok_of_bind runs
            cases runs
            have mirrors := cover_mirrors owned otherLevel (rows.map Row.tail) rest imageRest twins
              restEcho first
            exact mirrors.map (Findings.mapHoles Hole.skip) fun _ _ same => by rw [same]
termination_by (openNodes rows, slots.length)
decreasing_by
  · exact .left _ _ (openNodes_keptRows_lt head skips)
  · rw [openNodes_map_tail skips]
    exact .right _ (Nat.lt_succ_self _)

end Heads

end TypedMatch
