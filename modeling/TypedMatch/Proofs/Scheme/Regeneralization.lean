import Mathlib.Data.Set.Function
import TypedMatch.Proofs.Scheme.Owned
import TypedMatch.Proofs.Scheme.Resemblance

/-!
# Generalising an instance again

An instance of the scheme of a type resembles the type.  Where its new variables may be generalised again,
because they are of a deeper level, the walk through the instance takes the same way as the walk through the
type.  So it makes the same scheme, but for the numbers of the bound variables: new ones have been minted.
-/

set_option autoImplicit false

namespace TypedMatch

def BoundVar.shift (count : Nat) (param : BoundVar) : BoundVar := ⟨param.number + count⟩

theorem BoundVar.shift_injective (count : Nat) : Function.Injective (shift count) := by
  rintro ⟨number⟩ ⟨other⟩ same
  exact congrArg BoundVar.mk (Nat.add_right_cancel (congrArg BoundVar.number same))

def SchemeVar.rebind (rename : BoundVar → BoundVar) : SchemeVar → SchemeVar
  | free v => .free v
  | bound param => .bound (rename param)

def Scheme.rebind (rename : BoundVar → BoundVar) (scheme : Scheme) : Scheme where
  quantified := scheme.quantified.map fun entry =>
    ⟨rename entry.var, entry.kind.bind fun v => .var (v.rebind rename)⟩
  body := scheme.body.map (SchemeVar.rebind rename)

theorem Scheme.owned_rebind (rename : BoundVar → BoundVar) (scheme : Scheme) :
    (scheme.rebind rename).owned = scheme.owned.map rename := by
  simp only [owned, rebind, List.map_map]
  rfl

theorem Scheme.bijOn_rebind {rename : BoundVar → BoundVar} (injective : Function.Injective rename)
    (scheme : Scheme) :
    Set.BijOn rename {param | param ∈ scheme.owned} {param | param ∈ (scheme.rebind rename).owned} := by
  have image : rename '' {param | param ∈ scheme.owned}
      = {param | param ∈ (scheme.rebind rename).owned} := by
    ext param
    simp only [Set.mem_image, Set.mem_ofPred_eq, owned_rebind, List.mem_map]
  rw [← image]
  exact injective.injOn.bijOn_image

namespace Store

variable {store later : Store} {choose : FreeVar → Bool} {type image : Ty MetaVar}
  {rename : MetaVar → MetaVar}

/-! ## Schemes of types that resemble each other -/

theorem idxOf_map {vars : List MetaVar} {v : MetaVar}
    (injective : ∀ w ∈ vars, rename w = rename v → w = v) :
    (vars.map rename).idxOf (rename v) = vars.idxOf v := by
  induction vars with
  | nil => rfl
  | cons w rest inductionHypothesis =>
      obtain ⟨first, others⟩ := List.forall_mem_cons.mp injective
      rw [List.map_cons, List.idxOf_cons, List.idxOf_cons, inductionHypothesis others]
      by_cases same : w = v
      · rw [same, beq_self_eq_true, beq_self_eq_true]
      · rw [beq_eq_false_iff_ne.mpr same, beq_eq_false_iff_ne.mpr (mt first same)]

namespace Resembles

theorem ownedBy_eq (resembles : store.Resembles later choose type image rename) :
    later.ownedBy choose image = (store.ownedBy choose type).map rename := by
  rw [ownedBy, ownedBy, resembles.reach_eq, Trail.map, List.filter_map]
  refine congrArg (List.map rename) (List.filter_congr ?_)
  intro v entered
  exact resembles.chosen?_isSome (mem_entered_reach.mp entered)

theorem mem_ownedBy_iff (resembles : store.Resembles later choose type image rename) {v : MetaVar}
    (reached : store.Reaches choose type v) :
    rename v ∈ later.ownedBy choose image ↔ v ∈ store.ownedBy choose type := by
  rw [resembles.ownedBy_eq]
  constructor
  · intro among
    obtain ⟨w, wOwned, same⟩ := List.mem_map.mp among
    rwa [← resembles.injective w v (mem_ownedBy.mp wOwned).1 reached same]
  · exact List.mem_map_of_mem

theorem boundFor_eq (resembles : store.Resembles later choose type image rename) {v : MetaVar}
    (reached : store.Reaches choose type v) :
    later.boundFor choose image (rename v)
      = ⟨later.nextBound + (store.ownedBy choose type).idxOf v⟩ := by
  have sameIndex : ((store.ownedBy choose type).map rename).idxOf (rename v)
      = (store.ownedBy choose type).idxOf v :=
    idxOf_map fun w wOwned => resembles.injective w v (mem_ownedBy.mp wOwned).1 reached
  rw [boundFor, resembles.ownedBy_eq, sameIndex]

variable {shift : Nat}

/-- Where the second scheme numbers its bound variables by a constant later and owns the renamed variables
only, it names every variable alike. -/
theorem closedVar_eq (resembles : store.Resembles later choose type image rename)
    (shifted : later.nextBound = store.nextBound + shift) {v : MetaVar}
    (reached : store.Reaches choose type v)
    (kept : v ∉ store.ownedBy choose type → rename v = v) :
    later.closedVar choose image (rename v)
      = (store.closedVar choose type v).rebind (BoundVar.shift shift) := by
  by_cases isOwned : v ∈ store.ownedBy choose type
  · rw [closedVar, closedVar, if_pos isOwned, if_pos ((resembles.mem_ownedBy_iff reached).mpr isOwned),
      resembles.boundFor_eq reached, SchemeVar.rebind, BoundVar.shift, boundFor, shifted]
    have sameNumber : store.nextBound + shift + (store.ownedBy choose type).idxOf v
        = store.nextBound + (store.ownedBy choose type).idxOf v + shift := by omega
    rw [sameNumber]
  · rw [closedVar, closedVar, if_neg isOwned, if_neg (mt (resembles.mem_ownedBy_iff reached).mp isOwned),
      kept isOwned]
    rfl

/-- The scheme of the second type is that of the first with other numbers for its bound variables. -/
theorem closure_eq (resembles : store.Resembles later choose type image rename)
    (shifted : later.nextBound = store.nextBound + shift)
    (kept : ∀ v, store.Reaches choose type v → v ∉ store.ownedBy choose type → rename v = v) :
    later.closure choose image
      = (store.closure choose type).rebind (BoundVar.shift shift) := by
  have alike := fun v reached => resembles.closedVar_eq shifted reached (kept v reached)
  rw [closure, closure, Scheme.rebind]
  congr 1
  · rw [resembles.reach_eq, Trail.map, List.filterMap_map, List.map_filterMap]
    apply List.filterMap_congr
    intro v finished
    have reached := mem_finished_reach_iff.mp finished
    cases isChosen : store.chosen? choose v with
    | none =>
        rw [Function.comp_apply, resembles.unchosen v reached isChosen]
        rfl
    | some record =>
        obtain ⟨other, otherChosen, sameKind⟩ := resembles.chosen v record reached isChosen
        have isOwned : v ∈ store.ownedBy choose type := mem_ownedBy.mpr ⟨reached, record, isChosen⟩
        have sameVar := alike v reached
        rw [closedVar_eq_bound.mpr ⟨isOwned, rfl⟩, SchemeVar.rebind, closedVar_eq_bound] at sameVar
        rw [Function.comp_apply, otherChosen, Option.map_some, Option.map_some, Option.map_some,
          sameVar.2, closedKind, closedKind, sameKind, Kind.bind_bind, Kind.bind_bind]
        congr 2
        apply Kind.bind_congr
        intro w occurs
        rw [Ty.bind, alike w (.kind reached isChosen occurs)]
        rfl
  · rw [resembles.zonk_eq, Ty.map, Ty.map, Ty.map, Ty.map, Ty.bind_bind, Ty.bind_bind]
    apply Ty.bind_congr
    intro v occurs
    rw [Ty.bind, alike v (.leaf occurs)]
    rfl

end Resembles

/-! ## Copies -/

namespace IsCopy

variable {level : Level} {quantification : Quantification} {copy : MetaVar → MetaVar}

theorem get?_of_not_eligible
    (isCopy : store.IsCopy choose type level quantification copy image later)
    (held : store.Holds choose type.leaves) {v : MetaVar} (reached : store.Reaches choose type v)
    (notChosen : store.chosen? choose v = none) :
    copy v = v ∧ later.cells.get? v = store.cells.get? v := by
  have minted := (held v reached.sees).1
  constructor
  · apply isCopy.unchanged
    rintro ⟨_, record, isChosen⟩
    rw [notChosen] at isChosen
    cases isChosen
  · apply isCopy.kept
    rintro w eligible rfl
    exact Nat.not_lt.mpr (isCopy.fresh w eligible).1 minted

theorem free (isCopy : store.IsCopy choose type level quantification copy image later)
    (acyclic : store.Acyclic) (held : store.Holds choose type.leaves) {v : MetaVar}
    (reached : store.Reaches choose type v) :
    ∃ record, later.cells.get? (copy v) = some (.free record) := by
  cases isChosen : store.chosen? choose v with
  | some record => exact ⟨_, isCopy.cells v record reached isChosen⟩
  | none =>
      obtain ⟨isSame, kept⟩ := isCopy.get?_of_not_eligible held reached isChosen
      obtain ⟨record, stored⟩ := reached.free acyclic held.ownsReached
      exact ⟨record, by rw [isSame, kept, stored]⟩

theorem resembles (isCopy : store.IsCopy choose type level quantification copy image later)
    (acyclic : store.Acyclic) (held : store.Holds choose type.leaves)
    (stillChosen : ∀ record : FreeVar, record.quantification = quantification → record.level = level →
      choose record = true) : store.Resembles later choose type image copy where
  zonk_eq := by
    rw [zonk, isCopy.made_eq, Ty.map, Ty.bind_bind]
    apply Ty.bind_congr
    intro v occurs
    obtain ⟨record, stored⟩ := isCopy.free acyclic held (.leaf occurs)
    exact target_of_free stored
  injective := by
    intro v w vReached wReached same
    have numbers := congrArg MetaVar.number same
    cases vChosen : store.chosen? choose v with
    | some record =>
        have vEligible : store.Eligible choose type v := ⟨vReached, record, vChosen⟩
        cases wChosen : store.chosen? choose w with
        | some other => exact isCopy.injective v w vEligible ⟨wReached, other, wChosen⟩ same
        | none =>
            have new := (isCopy.fresh v vEligible).1
            have old := (held w wReached.sees).1
            rw [(isCopy.get?_of_not_eligible held wReached wChosen).1] at numbers
            omega
    | none =>
        cases wChosen : store.chosen? choose w with
        | some other =>
            have new := (isCopy.fresh w ⟨wReached, other, wChosen⟩).1
            have old := (held v vReached.sees).1
            rw [(isCopy.get?_of_not_eligible held vReached vChosen).1] at numbers
            omega
        | none =>
            rw [(isCopy.get?_of_not_eligible held vReached vChosen).1,
              (isCopy.get?_of_not_eligible held wReached wChosen).1] at same
            exact same
  chosen := by
    intro v record reached isChosen
    refine ⟨_, chosen?_eq_some.mpr ⟨isCopy.cells v record reached isChosen, stillChosen _ rfl rfl⟩, ?_⟩
    rw [zonkKind, Kind.bind_bind]
    apply Kind.bind_congr
    intro w occurs
    obtain ⟨other, stored⟩ := isCopy.free acyclic held (.kind reached isChosen occurs)
    exact target_of_free stored
  unchosen := by
    intro v reached notChosen
    obtain ⟨isSame, kept⟩ := isCopy.get?_of_not_eligible held reached notChosen
    rw [isSame, chosen?, kept]
    exact notChosen

end IsCopy

/-- Generalising a type, instantiating the scheme at a deeper level, and generalising the instance again
gives the same scheme, entry by entry, with other bound variables. -/
theorem generalize_again (acyclic : store.Acyclic) {outer inner : Level} (deeper : outer < inner)
    (held : store.Holds (FreeVar.generalizesAt outer) type.leaves) :
    ∃ scheme grown again last, store.generalize outer type = .ok (scheme, grown) ∧
      (grown.instantiate inner .allowed scheme).2.generalize outer
        (grown.instantiate inner .allowed scheme).1 = .ok (again, last) ∧
      ∃ rename : BoundVar → BoundVar, Function.Injective rename ∧
        Set.BijOn rename {param | param ∈ scheme.owned} {param | param ∈ again.owned} ∧
        again = scheme.rebind rename := by
  let choose := FreeVar.generalizesAt outer
  let grown : Store :=
    { store with nextBound := store.nextBound + (store.ownedBy choose type).length }
  have isCopy : store.IsCopy choose type inner .allowed (store.copyOf choose type)
      (grown.instantiate inner .allowed (store.closure choose type)).1
      (grown.instantiate inner .allowed (store.closure choose type)).2 :=
    instantiate_closure_isCopy inner .allowed rfl rfl
  have resembles := isCopy.resembles acyclic held fun record isAllowed isInner => by
    simp only [choose, FreeVar.generalizesAt, isAllowed, isInner, beq_self_eq_true, deeper,
      decide_true, Bool.and_self]
  have extension := grown.instantiateWith_extends inner .allowed [] (store.closure choose type)
  have free : ∀ w, (grown.instantiate inner .allowed (store.closure choose type)).2.Reaches choose
      (grown.instantiate inner .allowed (store.closure choose type)).1 w →
      ∃ record, (grown.instantiate inner .allowed (store.closure choose type)).2.cells.get? w
        = some (.free record) := by
    intro w reached
    obtain ⟨v, vReached, rfl⟩ := resembles.reaches_iff.mp reached
    exact isCopy.free acyclic held vReached
  have kept : ∀ v, store.Reaches choose type v → v ∉ store.ownedBy choose type →
      store.copyOf choose type v = v :=
    fun v _ notOwned => if_neg notOwned
  have sameScheme := resembles.closure_eq extension.nextBound_eq kept
  have injective := BoundVar.shift_injective (store.ownedBy choose type).length
  refine ⟨_, grown, _, _, close_eq acyclic held.ownsReached, close_eq_of_free free, _, injective, ?_,
    sameScheme⟩
  rw [sameScheme]
  exact Scheme.bijOn_rebind injective _

/-- The two records get the next two numbers when the instance is generalised, in the same order as
before. -/
theorem tangledType_again :
    ∃ scheme grown again last, tangledStore.generalize .bottom tangledType = .ok (scheme, grown) ∧
      (grown.instantiate ⟨7⟩ .allowed scheme).2.generalize .bottom
        (grown.instantiate ⟨7⟩ .allowed scheme).1 = .ok (again, last) ∧
      (∃ rename : BoundVar → BoundVar, Function.Injective rename ∧ again = scheme.rebind rename) ∧
      scheme.owned = [⟨1⟩, ⟨0⟩] ∧ again.owned = [⟨3⟩, ⟨2⟩] := by
  have deeper : Level.bottom < ⟨7⟩ := by decide
  obtain ⟨scheme, grown, again, last, made, madeAgain, rename, injective, _, same⟩ :=
    generalize_again tangledStore_acyclic deeper (tangledStore_holds _)
  have ownedEq : scheme.owned = [⟨1⟩, ⟨0⟩] := by
    cases made
    rfl
  have againEq : again.owned = [⟨3⟩, ⟨2⟩] := by
    cases made
    cases madeAgain
    rfl
  exact ⟨scheme, grown, again, last, made, madeAgain, ⟨rename, injective, same⟩, ownedEq, againEq⟩

end Store

end TypedMatch
