import TypedMatch.Proofs.Scheme.Instantiation
import TypedMatch.Proofs.Scheme.Reaching
import TypedMatch.Proofs.Store.Rendering

/-!
# Marks of weak variables

The text of a scheme marks the variables that stayed free, but not those that come in through a link.  So it is
the text in which all of them are marked just if no link in the scheme leads to a type that shows a variable.
-/

set_option autoImplicit false

namespace TypedMatch

namespace Ty

def remarked (weak : SchemeVar → Bool) (type : Ty ShownVar) : Ty ShownVar :=
  type.map fun shown => ⟨shown.var, weak shown.var⟩

variable {weak : SchemeVar → Bool} {type : Ty ShownVar}

theorem vars_remarked : (type.remarked weak).shown.map ShownVar.var = type.shown.map ShownVar.var := by
  rw [remarked, shown_map, List.map_map]
  rfl

theorem named_remarked (agree : ∀ shown ∈ type.shown, weak shown.var = shown.weak) :
    (type.remarked weak).named = type.named := by
  rw [named, named, vars_remarked, remarked, text_map]
  apply text_congr
  intro shown isShown
  rw [agree shown isShown]

theorem named_remarked_iff (legible : type.legible = true) :
    (type.remarked weak).named = type.named ↔ ∀ shown ∈ type.shown, weak shown.var = shown.weak := by
  refine ⟨?_, named_remarked⟩
  intro same shown isShown
  have legibleRemarked : (type.remarked weak).legible = true := by rwa [remarked, legible_map]
  have signs := congrArg leaves ((named_eq_iff legibleRemarked legible).mp same)
  rw [signed, signed, remarked, byName_map, map_map, leaves_map, leaves_map, leaves_byName] at signs
  have sameSign := List.map_inj_left.mp signs shown isShown
  exact (Prod.mk.inj sameSign).1

end Ty

namespace Store

variable {store : Store} {scheme : Scheme} {marks : MetaVar → Bool}

/-- The body of a scheme with its links followed, about to be named.  Where a variable stayed free, what it
leads to is marked as `marks` says; a variable that the scheme owns is never marked. -/
def withMarks (store : Store) (marks : MetaVar → Bool) (scheme : Scheme) : Ty ShownVar :=
  scheme.body.bind fun
    | .bound param => .var ⟨.bound param, false⟩
    | .free v => (store.target v).map fun w => ⟨.free w, marks v⟩

def isLinked (store : Store) (v : MetaVar) : Bool :=
  match store.cells.get? v with
  | some (.linked _) => true
  | _ => false

/-- Whether no link in the body of a scheme leads to a type that shows a variable. -/
def LinksShowNothing (store : Store) (scheme : Scheme) : Prop :=
  ∀ v, .free v ∈ scheme.body.shown → store.isLinked v = true → (store.target v).shown = []

theorem standIn_free (v : MetaVar) :
    store.standIn store.target (.free v) = (store.target v).map fun w => ⟨.free w, !store.isLinked v⟩ := by
  cases found : store.cells.get? v with
  | none =>
      have notLinked : ∀ target, store.cells.get? v ≠ some (.linked target) := by simp [found]
      rw [target_of_not_linked notLinked]
      simp [standIn, isLinked, found, Ty.map, Ty.bind]
  | some cell =>
      cases cell with
      | free record =>
          rw [target_of_free found]
          simp [standIn, isLinked, found, Ty.map, Ty.bind]
      | linked target => simp [standIn, isLinked, found]

theorem bind_standIn (store : Store) (scheme : Scheme) :
    scheme.body.bind (store.standIn store.target) = store.withMarks (fun v => !store.isLinked v) scheme := by
  apply Ty.bind_congr
  intro v _
  cases v with
  | bound param => rfl
  | free v => exact standIn_free v

theorem map_var_withMarks (store : Store) (marks : MetaVar → Bool) (scheme : Scheme) :
    (store.withMarks marks scheme).map ShownVar.var = store.zonkBody scheme.body := by
  rw [withMarks, Ty.map, Ty.bind_bind, zonkBody]
  apply Ty.bind_congr
  intro v _
  cases v with
  | bound param => rfl
  | free v => exact Ty.map_map _ ShownVar.var (store.target v)

theorem remarked_withMarks (store : Store) (marks : MetaVar → Bool) (scheme : Scheme) (weak : SchemeVar → Bool) :
    (store.withMarks marks scheme).remarked weak = scheme.body.bind fun
      | .bound param => .var ⟨.bound param, weak (.bound param)⟩
      | .free v => (store.target v).map fun w => ⟨.free w, weak (.free w)⟩ := by
  rw [Ty.remarked, withMarks, Ty.map, Ty.bind_bind]
  apply Ty.bind_congr
  intro v _
  cases v with
  | bound param => rfl
  | free v =>
      change ((store.target v).map _).map _ = _
      rw [Ty.map_map]

theorem withMarks_true (store : Store) (marks : MetaVar → Bool) (scheme : Scheme) :
    store.withMarks (fun _ => true) scheme
      = (store.withMarks marks scheme).remarked fun v => v.free?.isSome := by
  rw [remarked_withMarks]
  rfl

theorem mem_shown_withMarks {shown : ShownVar} : shown ∈ (store.withMarks marks scheme).shown ↔
    (∃ param, .bound param ∈ scheme.body.shown ∧ shown = ⟨.bound param, false⟩) ∨
    ∃ v w, .free v ∈ scheme.body.shown ∧ w ∈ (store.target v).shown ∧ shown = ⟨.free w, marks v⟩ := by
  rw [withMarks, Ty.shown_bind, List.mem_flatMap]
  constructor
  · rintro ⟨v, inBody, isShown⟩
    cases v with
    | bound param => exact .inl ⟨param, inBody, List.mem_singleton.mp isShown⟩
    | free v =>
        rw [Ty.shown_map] at isShown
        obtain ⟨w, shows, rfl⟩ := List.mem_map.mp isShown
        exact .inr ⟨v, w, inBody, shows, rfl⟩
  · rintro (⟨param, inBody, rfl⟩ | ⟨v, w, inBody, shows, rfl⟩)
    · exact ⟨_, inBody, .head _⟩
    · refine ⟨_, inBody, ?_⟩
      rw [Ty.shown_map]
      exact List.mem_map_of_mem shows

/-- All variables have the mark that is theirs just if those for which marks are missing show no variable. -/
theorem marked_iff :
    (∀ shown ∈ (store.withMarks marks scheme).shown, shown.var.free?.isSome = shown.weak) ↔
      ∀ v, .free v ∈ scheme.body.shown → marks v = false → (store.target v).shown = [] := by
  constructor
  · intro marked v inBody missing
    apply List.eq_nil_iff_forall_not_mem.mpr
    intro w shows
    have isMarked := marked _ (mem_shown_withMarks.mpr (.inr ⟨v, w, inBody, shows, rfl⟩))
    rw [missing] at isMarked
    cases isMarked
  · intro showsNothing shown isShown
    rcases mem_shown_withMarks.mp isShown with ⟨param, _, rfl⟩ | ⟨v, w, inBody, shows, rfl⟩
    · rfl
    · cases marking : marks v with
      | true => rfl
      | false =>
          rw [showsNothing v inBody marking] at shows
          cases shows

theorem schemeText_eq_named (acyclic : store.Acyclic)
    (owned : store.Owns (scheme.body.leaves.filterMap SchemeVar.free?)) :
    store.schemeText scheme = .ok (store.withMarks (fun v => !store.isLinked v) scheme).named := by
  rw [schemeText_eq_textOf_bind, bind_standIn]
  apply textOf_of_free
  intro shown isShown w isFree
  rcases mem_shown_withMarks.mp isShown with ⟨param, _, rfl⟩ | ⟨v, u, inBody, shows, rfl⟩
  · cases isFree
  · cases isFree
    have among : v ∈ scheme.body.leaves.filterMap SchemeVar.free? :=
      SchemeVar.mem_filterMap_free?.mpr ((Ty.shown_sublist _).subset inBody)
    have ownedVar : store.Owns (Ty.var v).leaves := owned.singleton among
    exact free_of_mem_shown_zonk acyclic ownedVar shows

/-- The text of a scheme marks what stands for a variable that stayed free just if that is not linked.  So it is
the text with all marks if no link leads to a type that shows a variable, and for legible types only then. -/
theorem schemeText_marks (acyclic : store.Acyclic)
    (owned : store.Owns (scheme.body.leaves.filterMap SchemeVar.free?)) :
    ∃ text, store.schemeText scheme = .ok text ∧
      text = (store.withMarks (fun v => !store.isLinked v) scheme).named ∧
      (store.LinksShowNothing scheme → text = (store.withMarks (fun _ => true) scheme).named) ∧
      ((store.zonkBody scheme.body).legible = true →
        text = (store.withMarks (fun _ => true) scheme).named → store.LinksShowNothing scheme) := by
  -- The two texts differ in marks alone, and the same variables are behind the marks that are missing.
  let marks (v : MetaVar) : Bool := !store.isLinked v
  have showNothing_iff : store.LinksShowNothing scheme ↔
      ∀ v, .free v ∈ scheme.body.shown → marks v = false → (store.target v).shown = [] := by
    simp only [LinksShowNothing, marks, Bool.not_eq_false']
  rw [withMarks_true store marks scheme, showNothing_iff, ← marked_iff]
  refine ⟨_, schemeText_eq_named acyclic owned, rfl, ?_, ?_⟩
  · intro marked
    exact (Ty.named_remarked marked).symm
  · intro legible same
    have legibleMarked : (store.withMarks marks scheme).legible = true := by
      rwa [← map_var_withMarks store marks, Ty.legible_map] at legible
    exact (Ty.named_remarked_iff legibleMarked).mp same.symm

def linkedScheme : Scheme := ⟨[], .product [.var (.free ⟨3⟩), .var (.free ⟨1⟩)]⟩

/-- The variable behind the link is marked in one place and not in the other. -/
theorem linkedScheme_text : tangledStore.schemeText linkedScheme = .ok "'a list * '_a" ∧
    (tangledStore.withMarks (fun _ => true) linkedScheme).named = "'_a list * '_a" := by
  decide

/-- A mark is missing from the text of the pair, and none from that of a scheme without a link. -/
theorem linkedScheme_lacks_mark :
    (∃ text, tangledStore.schemeText linkedScheme = .ok text ∧
      text ≠ (tangledStore.withMarks (fun _ => true) linkedScheme).named) ∧
    ∃ text, tangledStore.schemeText (.ofTy (.var ⟨1⟩)) = .ok text ∧
      text = (tangledStore.withMarks (fun _ => true) (.ofTy (.var ⟨1⟩))).named := by
  have closed : tangledStore.Closed := by decide
  have linkedOwned : tangledStore.Owns (linkedScheme.body.leaves.filterMap SchemeVar.free?) :=
    closed.owns (by decide)
  have directOwned : tangledStore.Owns ((Scheme.ofTy (.var ⟨1⟩)).body.leaves.filterMap SchemeVar.free?) :=
    closed.owns (by decide)
  obtain ⟨text, written, _, _, all_of_legible⟩ := schemeText_marks tangledStore_acyclic linkedOwned
  obtain ⟨direct, directWritten, _, all, _⟩ := schemeText_marks tangledStore_acyclic directOwned
  refine ⟨⟨text, written, ?_⟩, direct, directWritten, ?_⟩
  · intro same
    have showsNothing := all_of_legible (by decide) same ⟨3⟩ (.head _) rfl
    cases showsNothing
  · apply all
    intro v occurs linked
    cases List.mem_singleton.mp occurs
    cases linked

end Store

end TypedMatch
