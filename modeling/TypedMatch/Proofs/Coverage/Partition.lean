import TypedMatch.Proofs.Coverage.Splits

/-!
# Leaves partition values

The leaves that rows come to stand for disjoint sets of values, and at each of them exactly those rows
are left that accept the values it stands for.  Every value is at a leaf or differs in literals only
from one that is, and the same rows accept both.  Where every type has a value, every leaf stands for
some value.  All of this is by induction on how the rows split.
-/

set_option autoImplicit false

namespace TypedMatch

/-- Whether every type that is reached from a type has a value. -/
def Environment.Populated (env : Environment) (type : Ty Unit) : Prop :=
  ∀ found, env.Reaches type found → ∃ value : Value, value.Inhabits env found

variable {env : Environment} {rows : List Row} {slots : List (Ty Unit)} {leaves : List Leaf}
  {leaf : Leaf} {values : List Value}

theorem Environment.Populated.of_reaches {type found : Ty Unit} (populated : env.Populated type)
    (reaches : env.Reaches type found) : env.Populated found :=
  fun other further => populated other (reaches.trans further)

theorem coversList_map_wildcard (sameLength : values.length = slots.length) :
    Witness.coversList (slots.map fun _ => .wildcard) values = true := by
  induction slots generalizing values with
  | nil =>
      rw [List.length_eq_zero_iff.mp sameLength]
      rfl
  | cons slot rest inductionHypothesis =>
      cases values with
      | nil => cases sameLength
      | cons value values =>
          rw [List.map_cons, Witness.coversList, Witness.covers,
            inductionHypothesis (Nat.succ.inj sameLength), Bool.and_self]

theorem exists_inhabitsList (each : ∀ slot ∈ slots, ∃ value : Value, value.Inhabits env slot) :
    ∃ values, Value.InhabitsList env values slots := by
  induction slots with
  | nil => exact ⟨[], trivial⟩
  | cons slot rest inductionHypothesis =>
      obtain ⟨value, inhabits⟩ := each slot (.head _)
      obtain ⟨values, inhabit⟩ := inductionHypothesis fun other among => each other (.tail _ among)
      exact ⟨value :: values, inhabits, inhabit⟩

theorem handlers_of_spent (spent : ∀ row ∈ rows, row.shapes = []) : handlers rows [] = rows := by
  induction rows with
  | nil => rfl
  | cons row rows inductionHypothesis =>
      have rowSpent : row.shapes = [] := spent row (.head _)
      have accepted : row.accepts [] = true := by
        rw [Row.accepts, rowSpent]
        rfl
      have same : row.spent = row := by
        rw [Row.spent, ← rowSpent]
      rw [handlers_cons, accepted, inductionHypothesis fun other among => spent other (.tail _ among),
        same]
      rfl

theorem Shape.Fits.not_isSealed {shape : Shape} {type root : Ty Unit} (fits : shape.Fits env type)
    (asks : shape.isBlank = false) (stands : env.Root type root) : ¬ root.IsSealed := by
  intro isSealed
  cases shape with
  | wildcard => cases asks
  | unit | bool _ | str _ =>
      rw [stands.unique fits] at isSealed
      exact isSealed
  | int _ =>
      rw [stands.unique fits.2] at isSealed
      exact isSealed
  | nil =>
      obtain ⟨_, isList⟩ := fits
      rw [stands.unique isList] at isSealed
      exact isSealed
  | cons _ _ | tuple _ =>
      obtain ⟨_, isRoot, _⟩ := fits
      rw [stands.unique isRoot] at isSealed
      exact isSealed
  | ctor _ _ =>
      obtain ⟨_, ⟨_, _, _, _, isData, _⟩, _⟩ := fits
      rw [stands.unique isData] at isSealed
      exact isSealed

namespace Environment.Admits

variable {slot : Ty Unit} {rest : List (Ty Unit)}

theorem visible (admits : env.Admits rows (slot :: rest)) (asks : rows.all Row.skips = false)
    {value : Value} (inhabits : value.Inhabits env slot) (mark : Nat) : value ≠ .sealed mark := by
  rintro rfl
  obtain ⟨root, stands, isSealed⟩ := inhabits
  obtain ⟨shape, among, shapeAsks⟩ := admits.typed.exists_asking asks
  exact (admits.columnFits shape among).not_isSealed shapeAsks stands isSealed

end Environment.Admits

namespace Environment.Splits

theorem sketches (splits : env.Splits rows slots leaves) (admits : env.Admits rows slots) :
    ∀ leaf ∈ leaves, Witness.SketchesList env leaf.witnesses slots := by
  induction splits with
  | done rows =>
      intro leaf among
      cases List.mem_singleton.mp among
      exact trivial
  | spent slots =>
      intro leaf among
      cases List.mem_singleton.mp among
      exact Witness.sketchesList_map_wildcard slots
  | skip skips _ inductionHypothesis =>
      intro leaf among
      obtain ⟨inner, inInner, rfl⟩ := List.mem_map.mp among
      exact ⟨trivial, inductionHypothesis admits.tail inner inInner⟩
  | split asks enumerates _ inductionHypothesis =>
      intro leaf among
      obtain ⟨family, inFamilies, inner, inInner, rfl, headOf⟩ := enumerates.exists_family among
      have innerSketches := inductionHypothesis family inFamilies (admits.kept headOf) inner inInner
      obtain ⟨ofParts, ofOthers⟩ := innerSketches.split
      rw [family.1.length_slots] at ofParts ofOthers
      exact ⟨headOf.sketches_rebuild admits.column_short ofParts admits.columnFits, ofOthers⟩

theorem wide {head : Head Unit} {rest : List (Ty Unit)}
    (splits : env.Splits rows (head.slots ++ rest) leaves)
    (admits : env.Admits rows (head.slots ++ rest)) (among : leaf ∈ leaves) :
    head.arity ≤ leaf.witnesses.length := by
  rw [(splits.sketches admits leaf among).length_eq, List.length_append, head.length_slots]
  exact Nat.le_add_right _ _

theorem rows_eq (splits : env.Splits rows slots leaves) (admits : env.Admits rows slots) :
    ∀ leaf ∈ leaves, ∀ values, Value.InhabitsList env values slots → leaf.Covers values →
      leaf.rows = handlers rows values := by
  induction splits with
  | done rows =>
      intro leaf among values inhabit _
      cases List.mem_singleton.mp among
      rw [List.length_eq_zero_iff.mp inhabit.length_eq]
      exact (handlers_of_spent fun row inRows =>
        List.length_eq_zero_iff.mp (admits.fits row inRows).length_eq).symm
  | spent slots =>
      intro leaf among values _ _
      cases List.mem_singleton.mp among
      rfl
  | skip skips _ inductionHypothesis =>
      intro leaf among values inhabit covers
      obtain ⟨inner, inInner, rfl⟩ := List.mem_map.mp among
      obtain ⟨value, others, rfl, innerCovers⟩ := Leaf.exists_cons_of_covers_skip covers
      rw [← admits.handlers_tail skips value others]
      exact inductionHypothesis admits.tail inner inInner others inhabit.2 innerCovers
  | split asks enumerates splitsAll inductionHypothesis =>
      intro leaf among values inhabit covers
      obtain ⟨family, inFamilies, inner, inInner, rfl, headOf⟩ := enumerates.exists_family among
      have keptAdmits := admits.kept headOf
      have wide := (splitsAll family inFamilies).wide keptAdmits inInner
      obtain ⟨value, others, parts, rfl, opens, innerCovers⟩ :=
        Leaf.exists_opens_of_covers_fold wide covers
      have partsInhabit := headOf.inhabits_parts admits.slot_sound.rootDeclared inhabit.1 opens
      rw [← admits.handlers_kept headOf inhabit.1 opens others]
      exact inductionHypothesis family inFamilies keptAdmits inner inInner (parts ++ others)
        (partsInhabit.append inhabit.2) innerCovers

/-- Every value of the slots differs in literals only from one that a leaf stands for, and the same
rows accept both. -/
theorem exists_leaf (splits : env.Splits rows slots leaves) (admits : env.Admits rows slots) :
    ∀ values, Value.InhabitsList env values slots →
      ∃ leaf ∈ leaves, ∃ others, Value.InhabitsList env others slots ∧
        Value.SimilarList values others ∧ leaf.Covers others ∧
        ∀ row ∈ rows, row.accepts values = row.accepts others := by
  induction splits with
  | done rows =>
      intro values inhabit
      rw [List.length_eq_zero_iff.mp inhabit.length_eq]
      exact ⟨_, List.mem_singleton.mpr rfl, [], trivial, trivial, rfl, fun _ _ => rfl⟩
  | spent slots =>
      intro values inhabit
      refine ⟨_, List.mem_singleton.mpr rfl, values, inhabit, .refl values, ?_, fun _ _ => rfl⟩
      exact coversList_map_wildcard inhabit.length_eq
  | @skip rows slot rest leaves skips _ inductionHypothesis =>
      intro values inhabit
      cases values with
      | nil => exact inhabit.elim
      | cons value values =>
          obtain ⟨leaf, among, others, othersInhabit, similar, covers, same⟩ :=
            inductionHypothesis admits.tail values inhabit.2
          refine ⟨leaf.skip, List.mem_map_of_mem among, value :: others, ⟨inhabit.1, othersInhabit⟩,
            ⟨.refl value, similar⟩, Leaf.covers_skip.mpr covers, ?_⟩
          intro row inRows
          have fits := admits.fits row inRows
          have rowSkips := List.all_eq_true.mp skips row inRows
          rw [← Row.accepts_tail fits rowSkips, ← Row.accepts_tail fits rowSkips]
          exact same row.tail (List.mem_map_of_mem inRows)
  | @split rows slot rest families asks enumerates splitsAll inductionHypothesis =>
      intro values inhabit
      cases values with
      | nil => exact inhabit.elim
      | cons value values =>
          obtain ⟨head, parts, headOf, opens, partsInhabit⟩ :=
            exists_headOf (column rows) inhabit.1 (admits.visible asks inhabit.1)
          obtain ⟨family, inFamilies, rfl⟩ := List.mem_map.mp ((enumerates.mem_iff head).mpr headOf)
          have keptAdmits := admits.kept headOf
          obtain ⟨inner, inInner, all, allInhabit, similar, covers, same⟩ :=
            inductionHypothesis family inFamilies keptAdmits (parts ++ values)
              (partsInhabit.append inhabit.2)
          have wide := (splitsAll family inFamilies).wide keptAdmits inInner
          -- The parts that the leaf stands for are put together to a value with the same head.
          obtain ⟨others, more, rfl, othersInhabit, moreInhabit⟩ := allInhabit.split
          have complete : others.length = family.1.arity :=
            othersInhabit.length_eq.trans family.1.length_slots
          obtain ⟨othersSimilar, moreSimilar⟩ :=
            Value.SimilarList.of_append (opens.length_eq.trans complete.symm) similar
          have assembled : (family.1.assemble others).Inhabits env slot :=
            headOf.inhabits_assemble admits.column_short othersInhabit admits.columnFits
          refine ⟨inner.fold family.1,
            List.mem_flatMap.mpr ⟨family, inFamilies, List.mem_map_of_mem inInner⟩,
            family.1.assemble others :: more, ⟨assembled, moreInhabit⟩,
            ⟨headOf.similar_assemble admits.slot_sound.rootDeclared inhabit.1 opens othersSimilar,
              moreSimilar⟩,
            Leaf.covers_fold_assemble wide complete covers, ?_⟩
          intro row inRows
          rw [admits.accepts_eq headOf inhabit.1 opens inRows,
            admits.accepts_eq headOf assembled (Head.opens_assemble complete) inRows]
          cases keeps : row.under family.1 with
          | none => rfl
          | some kept => exact same kept (List.mem_filterMap.mpr ⟨row, inRows, keeps⟩)

theorem exists_covered (splits : env.Splits rows slots leaves) (admits : env.Admits rows slots)
    (populated : ∀ slot ∈ slots, env.Populated slot) :
    ∀ leaf ∈ leaves, ∃ values, Value.InhabitsList env values slots ∧ leaf.Covers values := by
  induction splits with
  | done rows =>
      intro leaf among
      cases List.mem_singleton.mp among
      exact ⟨[], trivial, rfl⟩
  | spent slots =>
      intro leaf among
      cases List.mem_singleton.mp among
      obtain ⟨values, inhabit⟩ := exists_inhabitsList fun slot inSlots =>
        populated slot inSlots slot .self
      exact ⟨values, inhabit, coversList_map_wildcard inhabit.length_eq⟩
  | skip skips _ inductionHypothesis =>
      intro leaf among
      obtain ⟨inner, inInner, rfl⟩ := List.mem_map.mp among
      obtain ⟨values, inhabit, covers⟩ := inductionHypothesis admits.tail
        (fun slot inRest => populated slot (.tail _ inRest)) inner inInner
      obtain ⟨value, inhabits⟩ := populated _ (.head _) _ .self
      exact ⟨value :: values, ⟨inhabits, inhabit⟩, Leaf.covers_skip.mpr covers⟩
  | @split rows slot rest families asks enumerates splitsAll inductionHypothesis =>
      intro leaf among
      obtain ⟨family, inFamilies, inner, inInner, rfl, headOf⟩ := enumerates.exists_family among
      have keptAdmits := admits.kept headOf
      have keptPopulated : ∀ other ∈ family.1.slots ++ rest, env.Populated other := by
        intro other inSlots
        rcases List.mem_append.mp inSlots with behind | inRest
        · exact (populated slot (.head _)).of_reaches (headOf.reaches behind)
        · exact populated other (.tail _ inRest)
      obtain ⟨all, allInhabit, covers⟩ :=
        inductionHypothesis family inFamilies keptAdmits keptPopulated inner inInner
      have wide := (splitsAll family inFamilies).wide keptAdmits inInner
      obtain ⟨parts, values, rfl, partsInhabit, inhabit⟩ := allInhabit.split
      exact ⟨family.1.assemble parts :: values,
        ⟨headOf.inhabits_assemble admits.column_short partsInhabit admits.columnFits, inhabit⟩,
        Leaf.covers_fold_assemble wide (partsInhabit.length_eq.trans family.1.length_slots) covers⟩

theorem disjoint (splits : env.Splits rows slots leaves) (admits : env.Admits rows slots) :
    leaves.Pairwise fun leaf other => ∀ values, leaf.Covers values → ¬ other.Covers values := by
  induction splits with
  | done rows => exact List.pairwise_singleton _ _
  | spent slots => exact List.pairwise_singleton _ _
  | skip skips _ inductionHypothesis =>
      refine List.pairwise_map.mpr ((inductionHypothesis admits.tail).imp ?_)
      intro leaf other apart values covers otherCovers
      obtain ⟨value, others, rfl, innerCovers⟩ := Leaf.exists_cons_of_covers_skip covers
      exact apart others innerCovers (Leaf.covers_skip.mp otherCovers)
  | @split rows slot rest families asks enumerates splitsAll inductionHypothesis =>
      have headOf : ∀ family ∈ families, env.HeadOf (column rows) slot family.1 :=
        fun family among => (enumerates.mem_iff family.1).mp (List.mem_map_of_mem among)
      have wide : ∀ family ∈ families, ∀ leaf ∈ family.2,
          family.1.arity ≤ leaf.witnesses.length := fun family among leaf inFamily =>
        (splitsAll family among).wide (admits.kept (headOf family among)) inFamily
      -- Leaves behind one head differ by the parts, and those behind two heads by the head.
      refine List.pairwise_flatMap.mpr ⟨?_, ?_⟩
      · intro family among
        refine List.pairwise_map.mpr (List.Pairwise.imp_of_mem ?_
          (inductionHypothesis family among (admits.kept (headOf family among))))
        intro leaf other inFamily otherInFamily apart values covers otherCovers
        obtain ⟨value, others, parts, rfl, opens, innerCovers⟩ :=
          Leaf.exists_opens_of_covers_fold (wide family among leaf inFamily) covers
        obtain ⟨_, _, otherParts, same, otherOpens, otherInnerCovers⟩ :=
          Leaf.exists_opens_of_covers_fold (wide family among other otherInFamily) otherCovers
        cases same
        rw [opens.unique otherOpens] at innerCovers
        exact apart _ innerCovers otherInnerCovers
      · refine List.Pairwise.imp_of_mem ?_ (List.pairwise_map.mp enumerates.distinct)
        intro family otherFamily among otherAmong different leaf inFolded other otherInFolded values
          covers otherCovers
        obtain ⟨inner, inInner, rfl⟩ := List.mem_map.mp inFolded
        obtain ⟨otherInner, otherInInner, rfl⟩ := List.mem_map.mp otherInFolded
        obtain ⟨value, others, parts, rfl, opens, _⟩ :=
          Leaf.exists_opens_of_covers_fold (wide family among inner inInner) covers
        obtain ⟨_, _, otherParts, same, otherOpens, _⟩ :=
          Leaf.exists_opens_of_covers_fold (wide otherFamily otherAmong otherInner otherInInner)
            otherCovers
        cases same
        exact different ((headOf family among).unique admits.slot_sound.rootDeclared
          (headOf otherFamily otherAmong) opens otherOpens)

end Environment.Splits

end TypedMatch
