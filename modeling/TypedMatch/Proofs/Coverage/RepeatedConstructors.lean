import TypedMatch.Proofs.Coverage.Finds
import TypedMatch.Proofs.Coverage.Minting
import TypedMatch.Proofs.Coverage.Repeats
import TypedMatch.Proofs.Coverage.ShownHeads

/-!
# Constructors listed repeatedly

An environment may list a constructor again after it has been listed.  A check then looks into it again, in
a store that has grown in the meantime, and finds what it has found there before.  So at every depth what is
found is what would have been found without repetitions, with some of it found again afterwards.

Two runs are compared.  The one without repetitions sets what is found behind each head; the other one finds
the same behind every head that looks the same to the store in which both began, whatever it has minted
before.
-/

set_option autoImplicit false

namespace TypedMatch

/-- Whether an environment answers like another one, but may list constructors with repetitions. -/
structure Environment.RepeatedBy (env second : Environment) : Prop where
  abbreviates : second.abbreviates = env.abbreviates
  body? : second.body? = env.body?
  declared : ∀ {con : TyCon} {once : List Constructor}, env.constructors? con = some once →
    ∃ many, second.constructors? con = some many ∧ Repeats [] once many
  undeclared : ∀ {con : TyCon}, env.constructors? con = none → second.constructors? con = none

namespace Environment

variable {env second : Environment} {base : Store} {links : List MetaVar} {steps : Nat}
  {seen root : Ty (Option MetaVar)} {column : List Shape} {heads others : List (Head (Option MetaVar))}

/-! ## Heads listed repeatedly -/

theorem Unrolls.of_same_aliases (abbreviates : second.abbreviates = env.abbreviates)
    (body? : second.body? = env.body?) (unrolls : env.Unrolls base links steps seen root) :
    second.Unrolls base links steps seen root := by
  induction unrolls with
  | here unfolds notAlias =>
      refine .here unfolds ?_
      rwa [show second.aliasAt? = env.aliasAt? by funext; simp only [aliasAt?, abbreviates]]
  | behind unfolds isAlias isBody fits _ inductionHypothesis =>
      exact .behind unfolds (abbreviates ▸ isAlias) (body? ▸ isBody) fits inductionHypothesis

theorem strangeCtor?_repeats {once many : List Constructor} (repeats : Repeats [] once many)
    (column : List Shape) : strangeCtor? many column = strangeCtor? once column := by
  rw [strangeCtor?, strangeCtor?]
  congr 1
  funext name
  have sameNames : name ∈ many.map Constructor.name ↔ name ∈ once.map Constructor.name :=
    (repeats.map Constructor.name).mem_iff
  rw [Bool.not_inj_iff, Bool.eq_iff_iff, List.contains_iff_mem, List.contains_iff_mem, sameNames]

theorem RepeatedBy.exists_once (repeated : env.RepeatedBy second) {con : TyCon}
    {many : List Constructor} (declared : second.constructors? con = some many) :
    ∃ once, env.constructors? con = some once ∧ Repeats [] once many := by
  cases isOnce : env.constructors? con with
  | none => cases (repeated.undeclared isOnce).symm.trans declared
  | some once =>
      obtain ⟨_, isMany, repeats⟩ := repeated.declared isOnce
      cases isMany.symm.trans declared
      exact ⟨once, rfl, repeats⟩

theorem RepeatedBy.ownedBy (repeated : env.RepeatedBy second) (owned : env.OwnedBy base) :
    second.OwnedBy base where
  bodies := fun isBody => owned.bodies (repeated.body? ▸ isBody)
  payloads := by
    intro con many declared constructor among
    obtain ⟨once, onceDeclared, repeats⟩ := repeated.exists_once declared
    exact owned.payloads onceDeclared constructor (repeats.mem_iff.mp among)

theorem RepeatedBy.showsHeads (repeated : env.RepeatedBy second)
    (shows : env.ShowsHeads base column seen heads) :
    ∃ others, second.ShowsHeads base column seen others ∧ Repeats [] heads others := by
  obtain ⟨links, steps, root, unrolls, headsAt⟩ := shows
  have unrolls := unrolls.of_same_aliases repeated.abbreviates repeated.body?
  cases headsAt with
  | base listed => exact ⟨heads, ⟨links, steps, _, unrolls, .base listed⟩, .refl _ _⟩
  | list => exact ⟨_, ⟨links, steps, _, unrolls, .list⟩, .refl _ _⟩
  | product fits => exact ⟨_, ⟨links, steps, _, unrolls, .product fits⟩, .refl _ _⟩
  | data declared notStrange each =>
      obtain ⟨many, isMany, repeats⟩ := repeated.declared declared
      obtain ⟨others, otherEach, headsRepeat⟩ :=
        repeats.exists_forall₂ (List.forall_mem_nil _) each
      rw [← strangeCtor?_repeats repeats] at notStrange
      exact ⟨others, ⟨links, steps, _, unrolls, .data isMany notStrange otherEach⟩, headsRepeat⟩

theorem RepeatedBy.showsHeads_of_second (repeated : env.RepeatedBy second)
    (shows : second.ShowsHeads base column seen others) :
    ∃ heads, env.ShowsHeads base column seen heads := by
  obtain ⟨links, steps, root, unrolls, headsAt⟩ := shows
  have unrolls := unrolls.of_same_aliases repeated.abbreviates.symm repeated.body?.symm
  cases headsAt with
  | base listed => exact ⟨others, links, steps, _, unrolls, .base listed⟩
  | list => exact ⟨_, links, steps, _, unrolls, .list⟩
  | product fits => exact ⟨_, links, steps, _, unrolls, .product fits⟩
  | data declared notStrange each =>
      obtain ⟨once, isOnce, repeats⟩ := repeated.exists_once declared
      obtain ⟨heads, onceEach⟩ := repeats.exists_forall₂_of_many each
      rw [strangeCtor?_repeats repeats] at notStrange
      exact ⟨heads, links, steps, _, unrolls, .data isOnce notStrange onceEach⟩

end Environment

/-! ## Findings found repeatedly -/

/-- Whether findings are others with repetitions of them or of what has been found before. -/
structure Findings.Repeats (before findings others : Findings) : Prop where
  holes : TypedMatch.Repeats before.holes findings.holes others.holes
  reached : TypedMatch.Repeats before.reached findings.reached others.reached

namespace Findings.Repeats

variable {before findings others : Findings}

theorem refl (before findings : Findings) : Findings.Repeats before findings findings :=
  ⟨.refl _ _, .refl _ _⟩

theorem mapHoles (repeats : Findings.Repeats .none findings others) (change : Hole → Hole) :
    Findings.Repeats .none (findings.mapHoles change) (others.mapHoles change) :=
  ⟨repeats.holes.map change, repeats.reached⟩

theorem append {further furtherOthers : Findings} (repeats : Findings.Repeats .none findings others)
    (more : Findings.Repeats (findings.append before) further furtherOthers) :
    Findings.Repeats before (findings.append further) (others.append furtherOthers) where
  holes := by
    refine (repeats.holes.mono (List.forall_mem_nil _)).append (more.holes.mono fun hole => ?_)
    simp only [Findings.append, List.mem_append, List.mem_reverse, imp_self]
  reached := by
    refine (repeats.reached.mono (List.forall_mem_nil _)).append (more.reached.mono fun branch => ?_)
    simp only [Findings.append, List.mem_append, List.mem_reverse, imp_self]

theorem again {further furtherOthers : Findings} (repeats : Findings.Repeats .none findings others)
    (holes : ∀ hole ∈ findings.holes, hole ∈ before.holes)
    (reached : ∀ branch ∈ findings.reached, branch ∈ before.reached)
    (more : Findings.Repeats before further furtherOthers) :
    Findings.Repeats before further (others.append furtherOthers) where
  holes := by
    have known := fun hole among => holes hole (repeats.holes.mem_iff.mp among)
    exact (TypedMatch.Repeats.of_subset known).append more.holes
  reached := by
    have known := fun branch among => reached branch (repeats.reached.mem_iff.mp among)
    exact (TypedMatch.Repeats.of_subset known).append more.reached

end Findings.Repeats

/-! ## Checks -/

/-- Whether two checks come to findings of which the second are the first with repetitions, or both
fail. -/
def Concur (before : Findings) (run otherRun : Except Fault (Findings × Store)) : Prop :=
  (∃ findings others grown otherGrown, run = .ok (findings, grown) ∧
      otherRun = .ok (others, otherGrown) ∧ Findings.Repeats before findings others) ∨
    (∃ fault, run = .error fault) ∧ ∃ fault, otherRun = .error fault

theorem Concur.mapOther {before : Findings} {run otherRun : Except Fault (Findings × Store)}
    (concur : Concur before run otherRun) {change : Findings → Findings}
    (keeps : ∀ {findings others}, Findings.Repeats before findings others →
      Findings.Repeats before findings (change others)) :
    Concur before run (otherRun.map fun result => (change result.1, result.2)) := by
  rcases concur with ⟨findings, others, grown, otherGrown, runs, rfl, repeats⟩ | ⟨fails, other, rfl⟩
  · exact .inl ⟨findings, _, grown, otherGrown, runs, rfl, keeps repeats⟩
  · exact .inr ⟨fails, other, rfl⟩

theorem Concur.map {earlier before : Findings} {run otherRun : Except Fault (Findings × Store)}
    (concur : Concur earlier run otherRun) {change otherChange : Findings → Findings}
    (keeps : ∀ {findings others}, Findings.Repeats earlier findings others →
      Findings.Repeats before (change findings) (otherChange others)) :
    Concur before (run.map fun result => (change result.1, result.2))
      (otherRun.map fun result => (otherChange result.1, result.2)) := by
  rcases concur with
    ⟨findings, others, grown, otherGrown, rfl, rfl, repeats⟩ | ⟨⟨fault, rfl⟩, other, rfl⟩
  · exact .inl ⟨_, _, grown, otherGrown, rfl, rfl, keeps repeats⟩
  · exact .inr ⟨⟨fault, rfl⟩, other, rfl⟩

section Checks

variable {env second : Environment} {base later other grown : Store} {level : Level} {rows : List Row}
  {rest imageRest : List (Ty MetaVar)}

theorem Head.slots_retype_view (head : Head MetaVar) :
    (head.retype base.view).slots = head.slots.map base.view := by
  cases head <;> rfl

theorem cover_extends {slots : List (Ty MetaVar)} {findings : Findings}
    (runs : cover env level later rows slots = .ok (findings, grown)) : grown.Extends later := by
  obtain ⟨_, mints⟩ := cover_mints _ _ _ _ _ runs
  exact mints.extension

theorem coverHeads_cons_of_ok (asks : rows.all Row.skips = false) {head : Head MetaVar}
    {inner : Findings}
    (runs : cover env level later (keptRows head rows) (head.slots ++ rest) = .ok (inner, grown))
    (more : List (Head MetaVar)) :
    coverHeads env level later rows rest (head :: more) asks
      = (coverHeads env level grown rows rest more asks).map fun others =>
          ((inner.mapHoles (Hole.fold head)).append others.1, others.2) := by
  rw [coverHeads, runs]
  rfl

theorem coverHeads_cons_of_error (asks : rows.all Row.skips = false) {head : Head MetaVar}
    {fault : Fault}
    (fails : cover env level later (keptRows head rows) (head.slots ++ rest) = .error fault)
    (more : List (Head MetaVar)) :
    coverHeads env level later rows rest (head :: more) asks = .error fault := by
  rw [coverHeads, fails]
  rfl

/-- Whether the checks behind two lists of slots, of which each store sees the same, always concur. -/
def Environment.ConcursBehind (env second : Environment) (base : Store) (level : Level) (rows : List Row)
    (rest imageRest : List (Ty MetaVar)) : Prop :=
  ∀ (head image : Head MetaVar) (later other : Store), later.Extends base → other.Extends base →
    head.retype base.view = image.retype base.view → base.RecognizesEach later (head.slots ++ rest) →
    base.RecognizesEach other (image.slots ++ imageRest) →
    Concur .none (cover env level later (keptRows head rows) (head.slots ++ rest))
      (cover second level other (keptRows image rows) (image.slots ++ imageRest))

/-- Whether the check behind every head that looks like a given one comes to given findings, up to
repetitions, and these are among those that have been found before. -/
structure Environment.Refinds (second : Environment) (base : Store) (level : Level) (rows : List Row)
    (rest : List (Ty MetaVar)) (before : Findings) (head : Head (Option MetaVar)) (inner : Findings) :
    Prop where
  runs : ∀ (image : Head MetaVar) (other : Store), other.Extends base →
    image.retype base.view = head → base.RecognizesEach other (image.slots ++ rest) →
    ∃ others grown, cover second level other (keptRows image rows) (image.slots ++ rest)
      = .ok (others, grown) ∧ Findings.Repeats .none inner others
  holes : ∀ hole ∈ (inner.mapHoles (Hole.fold head)).holes, hole ∈ before.holes
  reached : ∀ branch ∈ inner.reached, branch ∈ before.reached

section Behind

variable {before inner : Findings} {head : Head MetaVar} {seen once many : List (Head (Option MetaVar))}

theorem Environment.Refinds.append {look : Head (Option MetaVar)}
    (refinds : second.Refinds base level rows rest before look inner) (more : Findings) :
    second.Refinds base level rows rest (more.append before) look inner where
  runs := refinds.runs
  holes := fun hole among => List.mem_append_right _ (refinds.holes hole among)
  reached := fun branch among => List.mem_append_right _ (refinds.reached branch among)

theorem Environment.ConcursBehind.refinds
    (concurs : env.ConcursBehind second base level rows rest imageRest) (extension : later.Extends base)
    (headKnown : base.RecognizesEach later (head.slots ++ rest))
    (runs : cover env level later (keptRows head rows) (head.slots ++ rest) = .ok (inner, grown)) :
    second.Refinds base level rows imageRest ((inner.mapHoles (Hole.fold head)).append before)
      (head.retype base.view) inner where
  runs := by
    intro image other otherExtension sameView imageKnown
    rcases concurs head image later other extension otherExtension sameView.symm headKnown imageKnown with
      ⟨_, others, _, last, again, otherRuns, repeats⟩ | ⟨⟨_, fails⟩, _⟩
    · cases runs.symm.trans again
      exact ⟨others, last, otherRuns, repeats⟩
    · cases runs.symm.trans fails
  holes := by
    intro hole among
    rw [Hole.fold_retype] at among
    exact List.mem_append_left _ among
  reached := fun branch among => List.mem_append_left _ among

/-- The checks behind heads, where those of the first list are repeated in the second one.  A head that
comes again has been looked into before, and what was found there has been found before. -/
theorem coverHeads_concur (asks : rows.all Row.skips = false)
    (concurs : env.ConcursBehind second base level rows rest imageRest)
    (repeats : Repeats seen once many) :
    ∀ (heads images : List (Head MetaVar)) (later other : Store) (before : Findings),
      heads.map (Head.retype base.view) = once → images.map (Head.retype base.view) = many →
      later.Extends base → other.Extends base →
      (∀ head ∈ heads, base.RecognizesEach later (head.slots ++ rest)) →
      (∀ image ∈ images, base.RecognizesEach other (image.slots ++ imageRest)) →
      (∀ look ∈ seen, ∃ inner, second.Refinds base level rows imageRest before look inner) →
      Concur before (coverHeads env level later rows rest heads asks)
        (coverHeads second level other rows imageRest images asks) := by
  -- Along the repetition, not the heads: what has been seen there are the looks that `Refinds` speaks about.
  -- Both stores grow on the way, and what has been found before grows with the run that repeats nothing.
  induction repeats with
  | nil =>
      intro heads images later other before isOnce isMany _ _ _ _ _
      rw [List.map_eq_nil_iff.mp isOnce, List.map_eq_nil_iff.mp isMany, coverHeads, coverHeads]
      exact .inl ⟨.none, .none, later, other, rfl, rfl, .refl _ _⟩
  | first _ inductionHypothesis =>
      intro heads images later other before isOnce isMany extension otherExtension headsKnown imagesKnown
        known
      obtain ⟨head, heads, rfl, rfl, restOnce⟩ := List.map_eq_cons_iff.mp isOnce
      obtain ⟨image, images, rfl, sameView, restMany⟩ := List.map_eq_cons_iff.mp isMany
      obtain ⟨headKnown, headsKnown⟩ := List.forall_mem_cons.mp headsKnown
      obtain ⟨imageKnown, imagesKnown⟩ := List.forall_mem_cons.mp imagesKnown
      rcases concurs head image later other extension otherExtension sameView.symm headKnown imageKnown
        with ⟨inner, others, grown, otherGrown, runs, otherRuns, innerRepeats⟩ |
          ⟨⟨fault, fails⟩, otherFault, otherFails⟩
      · have growth := cover_extends runs
        have otherGrowth := cover_extends otherRuns
        have sameFold : Hole.fold image = Hole.fold head := by
          rw [← Hole.fold_retype base.view image, sameView, Hole.fold_retype]
        let found := inner.mapHoles (Hole.fold head)
        have foundKnown : ∀ look ∈ head.retype base.view :: _, ∃ inner,
            second.Refinds base level rows imageRest (found.append before) look inner :=
          List.forall_mem_cons.mpr ⟨⟨inner, concurs.refinds extension headKnown runs⟩,
            fun look among => (known look among).imp fun _ refinds => refinds.append found⟩
        rw [coverHeads_cons_of_ok asks runs, coverHeads_cons_of_ok asks otherRuns, sameFold]
        refine (inductionHypothesis heads images grown otherGrown (found.append before) restOnce restMany
          (growth.trans extension) (otherGrowth.trans otherExtension)
          (fun head among => (headsKnown head among).of_extends growth)
          (fun image among => (imagesKnown image among).of_extends otherGrowth) foundKnown).map ?_
        exact (innerRepeats.mapHoles (Hole.fold head)).append
      · rw [coverHeads_cons_of_error asks fails, coverHeads_cons_of_error asks otherFails]
        exact .inr ⟨⟨fault, rfl⟩, otherFault, rfl⟩
  | again inSeen _ inductionHypothesis =>
      intro heads images later other before isOnce isMany extension otherExtension headsKnown imagesKnown
        known
      obtain ⟨image, images, rfl, rfl, restMany⟩ := List.map_eq_cons_iff.mp isMany
      obtain ⟨imageKnown, imagesKnown⟩ := List.forall_mem_cons.mp imagesKnown
      obtain ⟨inner, refinds⟩ := known _ inSeen
      obtain ⟨others, otherGrown, otherRuns, innerRepeats⟩ :=
        refinds.runs image other otherExtension rfl imageKnown
      have otherGrowth := cover_extends otherRuns
      have foldedKnown := refinds.holes
      rw [Hole.fold_retype] at foldedKnown
      rw [coverHeads_cons_of_ok asks otherRuns]
      refine (inductionHypothesis heads images later otherGrown before isOnce restMany extension
        (otherGrowth.trans otherExtension) headsKnown
        (fun image among => (imagesKnown image among).of_extends otherGrowth) known).mapOther ?_
      exact (innerRepeats.mapHoles (Hole.fold image)).again foldedKnown refinds.reached

end Behind

theorem Findings.unmatched_congr {slots images : List (Ty MetaVar)} (same : slots.length = images.length) :
    Findings.unmatched slots = .unmatched images := by
  simp only [unmatched, List.map_const', same]

theorem cover_concur_of_asks (repeated : env.RepeatedBy second) (owned : env.OwnedBy base) (level : Level)
    (extension : later.Extends base) (otherExtension : other.Extends base)
    (asks : rows.all Row.skips = false) {slot image : Ty MetaVar} (slotKnown : base.Recognizes later slot)
    (imageKnown : base.Recognizes other image) (restKnown : base.RecognizesEach later rest)
    (imageRestKnown : base.RecognizesEach other imageRest) (sameView : base.view slot = base.view image)
    (concurs : env.ConcursBehind second base level rows rest imageRest) :
    Concur .none (cover env level later rows (slot :: rest))
      (cover second level other rows (image :: imageRest)) := by
  have nonempty : ¬ rows.isEmpty = true := by
    intro empty
    cases List.isEmpty_iff.mp empty
    cases asks
  have notSkips : ¬ rows.all Row.skips = true := by simp [asks]
  have computes := env.heads_exposes owned level extension slotKnown (column rows)
  have otherComputes := second.heads_exposes (repeated.ownedBy owned) level otherExtension imageKnown
    (column rows)
  rw [← sameView] at otherComputes
  rw [cover, cover, if_neg nonempty, if_neg nonempty, dif_neg notSkips, dif_neg notSkips]
  rcases computes with ⟨heads, grown, runs, growth, headsKnown, shows⟩ | ⟨headless, fault, fails⟩
  · obtain ⟨shown, otherShows, repeats⟩ := repeated.showsHeads shows
    rcases otherComputes with
      ⟨images, otherGrown, otherRuns, otherGrowth, imagesKnown, imagesShow⟩ | ⟨headless, _⟩
    · cases otherShows.unique imagesShow
      rw [runs, otherRuns]
      have restStillKnown := restKnown.of_extends growth
      have imageRestStillKnown := imageRestKnown.of_extends otherGrowth
      exact coverHeads_concur asks concurs repeats heads images grown otherGrown .none rfl rfl
        (growth.trans extension) (otherGrowth.trans otherExtension)
        (fun head among => List.forall_mem_append.mpr ⟨headsKnown head among, restStillKnown⟩)
        (fun image among => List.forall_mem_append.mpr ⟨imagesKnown image among, imageRestStillKnown⟩)
        (List.forall_mem_nil _)
    · exact absurd otherShows (headless shown)
  · rcases otherComputes with ⟨_, _, _, _, _, imagesShow⟩ | ⟨_, otherFault, otherFails⟩
    · obtain ⟨heads, shows⟩ := repeated.showsHeads_of_second imagesShow
      exact absurd shows (headless heads)
    · rw [fails, otherFails]
      exact .inr ⟨⟨fault, rfl⟩, otherFault, rfl⟩

/-- Checks of the same rows in environments of which one lists constructors repeatedly concur, in any
two stores that have only minted variables since, and whatever these have minted. -/
theorem cover_concur (repeated : env.RepeatedBy second) (owned : env.OwnedBy base) (level : Level)
    (later other : Store) (extension : later.Extends base) (otherExtension : other.Extends base)
    (rows : List Row) (slots images : List (Ty MetaVar)) (slotsKnown : base.RecognizesEach later slots)
    (imagesKnown : base.RecognizesEach other images)
    (sameViews : slots.map base.view = images.map base.view) :
    Concur .none (cover env level later rows slots) (cover second level other rows images) := by
  match slots, images with
  | [], [] =>
      rw [cover, cover]
      exact .inl ⟨_, _, later, other, rfl, rfl, .refl _ _⟩
  | slot :: rest, image :: imageRest =>
      obtain ⟨slotKnown, restKnown⟩ := List.forall_mem_cons.mp slotsKnown
      obtain ⟨imageKnown, imageRestKnown⟩ := List.forall_mem_cons.mp imagesKnown
      obtain ⟨sameView, sameRest⟩ := List.cons.inj sameViews
      cases skips : rows.all Row.skips with
      | false =>
          refine cover_concur_of_asks repeated owned level extension otherExtension skips slotKnown
            imageKnown restKnown imageRestKnown sameView ?_
          intro head headImage laterStore otherStore growth otherGrowth sameHead headKnown headImageKnown
          have sameSlots : (head.slots ++ rest).map base.view
              = (headImage.slots ++ imageRest).map base.view := by
            rw [List.map_append, List.map_append, sameRest, ← Head.slots_retype_view, sameHead,
              Head.slots_retype_view]
          have sameRows : keptRows headImage rows = keptRows head rows := by
            rw [← keptRows_retype base.view headImage, ← sameHead, keptRows_retype]
          rw [sameRows]
          exact cover_concur repeated owned level laterStore otherStore growth otherGrowth
            (keptRows head rows) _ _ headKnown headImageKnown sameSlots
      | true =>
          by_cases empty : rows.isEmpty = true
          · have sameLength : (slot :: rest).length = (image :: imageRest).length := by
              simpa only [List.length_map] using congrArg List.length sameViews
            rw [cover, cover, if_pos empty, if_pos empty, Findings.unmatched_congr sameLength]
            exact .inl ⟨_, _, later, other, rfl, rfl, .refl _ _⟩
          · have inner := cover_concur repeated owned level later other extension otherExtension
              (rows.map Row.tail) rest imageRest restKnown imageRestKnown sameRest
            rw [cover, cover, if_neg empty, if_neg empty, dif_pos skips, dif_pos skips]
            exact inner.map fun repeats => repeats.mapHoles Hole.skip
  | [], _ :: _ => cases sameViews
  | _ :: _, [] => cases sameViews
termination_by (openNodes rows, slots.length)
decreasing_by
  · exact .left _ _ (openNodes_keptRows_lt head skips)
  · rw [openNodes_map_tail skips]
    exact .right _ (Nat.lt_succ_self _)

end Checks

end TypedMatch
