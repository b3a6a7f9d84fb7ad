import TypedMatch.Proofs.Coverage.Finds
import TypedMatch.Proofs.Coverage.Guards
import TypedMatch.Proofs.Coverage.Width
import TypedMatch.Proofs.Declaration.Built

/-!
# No hole is found twice

Where the constructors of every variant have distinct names, two holes always differ in their witnesses:
holes behind one head differ in the parts, and those behind two heads in what is rebuilt.  This holds for
whatever is found out, also at types that are not declared throughout or that patterns do not fit.
-/

set_option autoImplicit false

namespace TypedMatch

/-! ## Heads that differ -/

namespace Head

variable {Var : Type}

def Apart (head other : Head Var) : Prop :=
  ∀ parts others, head.rebuild parts ≠ other.rebuild others

theorem rebuild_inj {head : Head Var} {parts others : List Witness}
    (complete : parts.length = head.arity) (otherComplete : others.length = head.arity)
    (same : head.rebuild parts = head.rebuild others) : parts = others := by
  have covers : head.Covers [] := by cases head <;> simp [Covers]
  obtain ⟨shown, opened, _⟩ := exists_opened_rebuild covers complete
  obtain ⟨other, otherOpened, _⟩ := exists_opened_rebuild covers otherComplete
  rw [same, otherOpened] at opened
  cases opened
  rfl

theorem rebuild_ofConstructor (name : String) (payload : Ty Var) (parts : List Witness) :
    (ofConstructor name payload).rebuild parts = .constant name ∨
      ∃ inner, (ofConstructor name payload).rebuild parts = .applied name inner := by
  unfold ofConstructor
  split
  · exact .inl rfl
  · match parts with
    | [inner] => exact .inr ⟨inner, rfl⟩
    | [] | _ :: _ :: _ => exact .inr ⟨.wildcard, rfl⟩

theorem apart_ofConstructor {name other : String} (different : name ≠ other)
    (payload carried : Ty Var) : Apart (ofConstructor name payload) (ofConstructor other carried) := by
  intro parts others same
  rcases rebuild_ofConstructor name payload parts with rebuilt | ⟨_, rebuilt⟩ <;>
    rcases rebuild_ofConstructor other carried others with otherRebuilt | ⟨_, otherRebuilt⟩ <;>
    cases rebuilt.symm.trans (same.trans otherRebuilt) <;>
    exact different rfl

theorem apart_ints {listed : List Int} (distinct : listed.Nodup) :
    (listed.map Head.int ++ [Head.intBesides listed] : List (Head Var)).Pairwise Apart := by
  refine List.pairwise_append.mpr ⟨?_, List.pairwise_singleton _ _, ?_⟩
  · refine List.pairwise_map.mpr (distinct.imp ?_)
    intro value other different _ _ same
    exact different (Witness.int.inj same)
  · intro head among other isOther _ _ same
    obtain ⟨value, isListed, rfl⟩ := List.mem_map.mp among
    cases List.mem_singleton.mp isOther
    rw [Witness.int.inj same] at isListed
    exact (sampleInt_spec listed).1 isListed

theorem apart_strs {listed : List String} (distinct : listed.Nodup) :
    (listed.map Head.str ++ [Head.strBesides listed] : List (Head Var)).Pairwise Apart := by
  refine List.pairwise_append.mpr ⟨?_, List.pairwise_singleton _ _, ?_⟩
  · refine List.pairwise_map.mpr (distinct.imp ?_)
    intro value other different _ _ same
    exact different (Witness.str.inj same)
  · intro head among other isOther _ _ same
    obtain ⟨value, isListed, rfl⟩ := List.mem_map.mp among
    cases List.mem_singleton.mp isOther
    rw [Witness.str.inj same] at isListed
    exact sampleStr_not_mem listed isListed

theorem apart_cons_nil (element : Ty Var) : [Head.cons element, .nil].Pairwise Apart := by
  refine List.pairwise_pair.mpr ?_
  intro parts _ same
  match parts with
  | [] | [_] | [_, _] | _ :: _ :: _ :: _ => cases same

end Head

namespace Environment

def Distinct (env : Environment) : Prop :=
  ∀ {con : TyCon} {constructors : List Constructor}, env.constructors? con = some constructors →
    (constructors.map Constructor.name).Nodup

theorem Distinct.outline {env : Environment} (distinct : env.Distinct) (store : Store) :
    (env.outline store).Distinct := by
  intro con constructors listed
  obtain ⟨originals, declared, rfl⟩ := Option.map_eq_some_iff.mp listed
  rw [List.map_map]
  exact distinct declared

variable {env : Environment} {column : List Shape} {root : Ty Unit} {heads : List (Head Unit)}
  {rows : List Row} {slots : List (Ty Unit)} {findings : Findings}

theorem apart_of_headsAt? (distinct : env.Distinct) (listed : env.headsAt? column root = some heads) :
    heads.Pairwise Head.Apart := by
  cases root with
  | base kind =>
      cases kind with
      | unit =>
          cases listed
          exact List.pairwise_singleton _ _
      | bool =>
          cases listed
          exact List.pairwise_pair.mpr fun _ _ same => Bool.noConfusion (Witness.bool.inj same)
      | int =>
          cases listed
          exact Head.apart_ints (nodup_eraseDups _)
      | string =>
          cases listed
          exact Head.apart_strs (nodup_eraseDups _)
      | _ => cases listed
  | list element =>
      cases listed
      exact Head.apart_cons_nil element
  | product components =>
      rw [headsAt?] at listed
      split at listed
      · cases listed
        exact List.pairwise_singleton _ _
      · cases listed
  | data con args =>
      rw [headsAt?] at listed
      split at listed
      · cases listed
      · rename_i constructors declared
        split at listed
        · cases listed
          refine List.pairwise_map.mpr ((List.pairwise_map.mp (distinct declared)).imp ?_)
          exact fun different => Head.apart_ofConstructor different _ _
        · cases listed
  | _ => cases listed

/-! ## Holes that differ -/

end Environment

theorem Findings.holes_foldAll (families : List (Head Unit × Findings)) :
    (foldAll families).holes
      = families.flatMap fun family => family.2.holes.map (Hole.fold family.1) := by
  induction families with
  | nil => rfl
  | cons family families inductionHypothesis =>
      rw [List.flatMap_cons, ← inductionHypothesis]
      rfl

section Fold

variable {head : Head Unit} {rest : List (Ty Unit)} {holes : List Hole}

theorem Hole.nodup_fold
    (complete : ∀ hole ∈ holes, hole.witnesses.length = (head.slots ++ rest).length)
    (distinct : (holes.map Hole.witnesses).Nodup) :
    ((holes.map (Hole.fold head)).map Hole.witnesses).Nodup := by
  rw [List.map_map]
  refine List.pairwise_map.mpr (List.Pairwise.imp_of_mem ?_ (List.pairwise_map.mp distinct))
  intro hole other among otherAmong different same
  have wide : ∀ hole ∈ holes, head.arity ≤ hole.witnesses.length := by
    intro hole among
    rw [complete hole among, List.length_append, Head.length_slots]
    exact Nat.le_add_right _ _
  obtain ⟨sameFirst, sameRest⟩ := List.cons.inj same
  have sameParts := Head.rebuild_inj (List.length_take_of_le (wide hole among))
    (List.length_take_of_le (wide other otherAmong)) sameFirst
  apply different
  rw [← List.take_append_drop head.arity hole.witnesses, sameParts, sameRest,
    List.take_append_drop]

end Fold

namespace Environment

variable {env : Environment} {rows : List Row} {slots : List (Ty Unit)} {findings : Findings}

theorem Finds.length_witnesses (found : env.Finds rows slots findings) :
    ∀ hole ∈ findings.holes, hole.witnesses.length = slots.length := by
  induction found with
  | done rows =>
      intro hole among
      rw [Findings.witnesses_of_mem_ofRows among]
      rfl
  | spent slot rest =>
      intro hole among
      cases List.mem_singleton.mp among
      exact List.length_map _
  | skip _ _ _ inductionHypothesis =>
      refine List.forall_mem_map.mpr ?_
      intro hole among
      exact congrArg (· + 1) (inductionHypothesis hole among)
  | split _ _ _ inductionHypothesis =>
      rw [Findings.holes_foldAll]
      intro hole among
      obtain ⟨family, inFamilies, inFamily⟩ := List.mem_flatMap.mp among
      obtain ⟨inner, inInner, rfl⟩ := List.mem_map.mp inFamily
      exact Hole.length_fold (inductionHypothesis family inFamilies inner inInner)

theorem Finds.nodup_witnesses (distinct : env.Distinct) (found : env.Finds rows slots findings) :
    (findings.holes.map Hole.witnesses).Nodup := by
  induction found with
  | done rows =>
      unfold Findings.ofRows
      split
      · exact List.nodup_singleton _
      · exact List.nodup_singleton _
      · exact List.nodup_nil
  | spent slot rest => exact List.nodup_singleton _
  | @skip _ _ _ findings _ _ _ inductionHypothesis =>
      have mapped : ((findings.mapHoles Hole.skip).holes.map Hole.witnesses)
          = (findings.holes.map Hole.witnesses).map (List.cons .wildcard) := by
        rw [Findings.mapHoles, List.map_map, List.map_map]
        rfl
      rw [mapped]
      exact inductionHypothesis.map List.cons_injective
  | @split rows slot rest families _ lists found inductionHypothesis =>
      obtain ⟨root, _, listed⟩ := lists
      have apart := List.pairwise_map.mp (apart_of_headsAt? distinct listed)
      rw [Findings.holes_foldAll, List.map_flatMap]
      refine List.pairwise_flatMap.mpr ⟨?_, apart.imp ?_⟩
      · intro family among
        exact Hole.nodup_fold (found family among).length_witnesses (inductionHypothesis family among)
      · -- Holes behind two heads differ already in the first witness.
        intro family other headsApart witnesses inFamily otherWitnesses inOther same
        obtain ⟨hole, isFolded, rfl⟩ := List.mem_map.mp inFamily
        obtain ⟨otherHole, otherFolded, rfl⟩ := List.mem_map.mp inOther
        obtain ⟨inner, _, rfl⟩ := List.mem_map.mp isFolded
        obtain ⟨otherInner, _, rfl⟩ := List.mem_map.mp otherFolded
        exact headsApart _ _ (List.cons.inj same).1

theorem Finds.nodup_witnessesOf (distinct : env.Distinct) {slot : Ty Unit}
    (found : env.Finds rows [slot] findings) (kind : HoleKind) :
    (Verdict.witnessesOf kind findings).Nodup := by
  have holesDiffer := (List.pairwise_map.mp (found.nodup_witnesses distinct)).filter (·.kind == kind)
  refine List.pairwise_filterMap.mpr (List.Pairwise.imp_of_mem ?_ holesDiffer)
  intro hole other among otherAmong different witness isFirst otherWitness isOtherFirst same
  have single : ∀ {hole : Hole} {witness : Witness},
      hole ∈ findings.holes.filter (·.kind == kind) →
      hole.witnesses.head? = some witness → hole.witnesses = [witness] := by
    intro hole witness among isFirst
    obtain ⟨only, isSingle⟩ :=
      List.length_eq_one_iff.mp (found.length_witnesses hole (List.mem_filter.mp among).1)
    rw [isSingle] at isFirst ⊢
    cases isFirst
    rfl
  apply different
  rw [single among isFirst, single otherAmong isOtherFirst, same]

end Environment

end TypedMatch
