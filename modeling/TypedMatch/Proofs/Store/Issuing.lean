import TypedMatch.Declaration.Basic
import TypedMatch.Proofs.Coverage.Minting
import TypedMatch.Proofs.Scheme.Owned

/-!
# Identities are issued once

Whatever is done to a store is made up of a few basic operations, three of which issue identities.  The
numbers that come up in each space are consecutive, so no identity is issued twice.
-/

set_option autoImplicit false

namespace TypedMatch

/-- Identities that have been issued, those of each space in order. -/
structure Issued where
  vars : List MetaVar
  bounds : List BoundVar
  cons : List TyCon
deriving DecidableEq, Repr, Inhabited

namespace Issued

def none : Issued := ⟨[], [], []⟩

def append (first second : Issued) : Issued :=
  ⟨first.vars ++ second.vars, first.bounds ++ second.bounds, first.cons ++ second.cons⟩

/-- Whether identities are among others, each as often as there. -/
structure Among (part whole : Issued) : Prop where
  vars : part.vars.Subperm whole.vars
  bounds : part.bounds.Subperm whole.bounds
  cons : part.cons.Subperm whole.cons

/-- Whether no number comes up twice in a space. -/
structure Distinct (issued : Issued) : Prop where
  vars : (issued.vars.map MetaVar.number).Nodup
  bounds : (issued.bounds.map BoundVar.number).Nodup
  cons : (issued.cons.map TyCon.number).Nodup

end Issued

namespace Store

/-- Whether a store becomes another one by basic operations that issue the given identities. -/
inductive Issues (store : Store) : Issued → Store → Prop where
  | none : Issues store .none store
  | newVar {issued : Issued} {grown : Store} (kind : Kind MetaVar) (quantification : Quantification)
      (level : Level) : Issues store issued grown →
      Issues store (issued.append ⟨[(grown.newVar kind quantification level).1], [], []⟩)
        (grown.newVar kind quantification level).2
  | newBound {issued : Issued} {grown : Store} : Issues store issued grown →
      Issues store (issued.append ⟨[], [grown.newBound.1], []⟩) grown.newBound.2
  | newCon {issued : Issued} {grown : Store} (name : String) : Issues store issued grown →
      Issues store (issued.append ⟨[], [], [(grown.newCon name).1]⟩) (grown.newCon name).2
  | constrain {issued : Issued} {grown : Store} (v : MetaVar) (kind : Kind MetaVar) :
      Issues store issued grown → Issues store issued (grown.constrain v kind)
  | link {issued : Issued} {grown : Store} (v : MetaVar) (target : Ty MetaVar) :
      Issues store issued grown → Issues store issued (grown.link v target)

end Store

namespace Issued

variable {part whole other last : Issued}

theorem append_assoc (first second third : Issued) :
    (first.append second).append third = first.append (second.append third) := by
  simp only [append, List.append_assoc]

theorem append_none (issued : Issued) : issued.append .none = issued := by
  simp only [append, none, List.append_nil]

theorem Among.none (issued : Issued) : Issued.none.Among issued :=
  ⟨List.nil_subperm, List.nil_subperm, List.nil_subperm⟩

theorem Among.refl (issued : Issued) : issued.Among issued :=
  ⟨.refl _, .refl _, .refl _⟩

theorem Among.append (first : part.Among whole) (second : other.Among last) :
    (part.append other).Among (whole.append last) :=
  ⟨first.vars.append second.vars, first.bounds.append second.bounds, first.cons.append second.cons⟩

theorem nodup_map_of_subperm {Identity : Type} {number : Identity → Nat} {part whole : List Identity}
    (among : part.Subperm whole) (distinct : (whole.map number).Nodup) : (part.map number).Nodup := by
  obtain ⟨inner, same, sublist⟩ := among
  exact (same.map number).nodup_iff.mp (distinct.sublist (sublist.map number))

theorem Among.distinct (among : part.Among whole) (distinct : whole.Distinct) : part.Distinct :=
  ⟨nodup_map_of_subperm among.vars distinct.vars, nodup_map_of_subperm among.bounds distinct.bounds,
    nodup_map_of_subperm among.cons distinct.cons⟩

end Issued

def CountOn (numbers : List Nat) (first next : Nat) : Prop :=
  numbers = List.range' first numbers.length ∧ next = first + numbers.length

namespace CountOn

theorem none (next : Nat) : CountOn [] next next := ⟨rfl, rfl⟩

theorem one {numbers : List Nat} {first next : Nat} (counted : CountOn numbers first next) :
    CountOn (numbers ++ [next]) first (next + 1) := by
  obtain ⟨isRange, rfl⟩ := counted
  constructor
  · rw [List.length_append, List.length_singleton, List.range'_1_concat, ← isRange]
  · rw [List.length_append, List.length_singleton, Nat.add_assoc]

theorem nodup {numbers : List Nat} {first next : Nat} (counted : CountOn numbers first next) :
    numbers.Nodup := by
  rw [counted.1]
  exact List.nodup_range'

end CountOn

namespace Store

variable {store grown last : Store} {issued more : Issued}

namespace Issues

theorem trans (first : store.Issues issued grown) (second : grown.Issues more last) :
    store.Issues (issued.append more) last := by
  induction second with
  | none => rwa [Issued.append_none]
  | newVar kind quantification level _ inductionHypothesis =>
      rw [← Issued.append_assoc]
      exact .newVar kind quantification level inductionHypothesis
  | newBound _ inductionHypothesis =>
      rw [← Issued.append_assoc]
      exact .newBound inductionHypothesis
  | newCon name _ inductionHypothesis =>
      rw [← Issued.append_assoc]
      exact .newCon name inductionHypothesis
  | constrain v kind _ inductionHypothesis => exact .constrain v kind inductionHypothesis
  | link v target _ inductionHypothesis => exact .link v target inductionHypothesis

theorem consecutive (issues : store.Issues issued grown) :
    CountOn (issued.vars.map MetaVar.number) store.nextVar grown.nextVar ∧
      CountOn (issued.bounds.map BoundVar.number) store.nextBound grown.nextBound ∧
      CountOn (issued.cons.map TyCon.number) store.nextCon grown.nextCon := by
  induction issues with
  | none => exact ⟨.none _, .none _, .none _⟩
  | newVar kind quantification level _ inductionHypothesis =>
      obtain ⟨vars, bounds, cons⟩ := inductionHypothesis
      simp only [Issued.append, List.map_append, List.append_nil]
      exact ⟨vars.one, bounds, cons⟩
  | newBound _ inductionHypothesis =>
      obtain ⟨vars, bounds, cons⟩ := inductionHypothesis
      simp only [Issued.append, List.map_append, List.append_nil]
      exact ⟨vars, bounds.one, cons⟩
  | newCon name _ inductionHypothesis =>
      obtain ⟨vars, bounds, cons⟩ := inductionHypothesis
      simp only [Issued.append, List.map_append, List.append_nil]
      exact ⟨vars, bounds, cons.one⟩
  | @constrain issued grown v kind _ inductionHypothesis =>
      rw [Store.constrain]
      split
      · exact inductionHypothesis
      · exact inductionHypothesis
  | link v target _ inductionHypothesis => exact inductionHypothesis

theorem distinct (issues : store.Issues issued grown) : issued.Distinct := by
  obtain ⟨vars, bounds, cons⟩ := issues.consecutive
  exact ⟨vars.nodup, bounds.nodup, cons.nodup⟩

end Issues

/-! ## Composite operations -/

theorem issues_newBounds (store : Store) (count : Nat) :
    store.Issues ⟨[], (store.newBounds count).1, []⟩ (store.newBounds count).2 := by
  induction count with
  | zero => exact .none
  | succ count inductionHypothesis =>
      have next := Issues.newBound inductionHypothesis
      simp only [newBounds, newBound, Issued.append, List.append_nil] at next
      rw [newBounds, List.range_succ, List.map_append]
      exact next

theorem issues_newDeclared (store : Store) (name : String) (arity : Nat) :
    store.Issues ⟨[], (store.newDeclared name arity).1.params, [(store.newDeclared name arity).1.con]⟩
      (store.newDeclared name arity).2 :=
  (Issues.newCon name .none).trans ((store.newCon name).2.issues_newBounds arity)

theorem HasMinted.issues (minted : store.HasMinted grown) :
    ∃ whole, store.Issues whole grown ∧ Issued.none.Among whole := by
  obtain ⟨count, mints⟩ := minted
  refine Exists.imp (fun whole issues => ⟨issues, .none whole⟩) ?_
  induction mints with
  | none => exact ⟨_, .none⟩
  | one kind quantification level _ inductionHypothesis =>
      obtain ⟨whole, issues⟩ := inductionHypothesis
      exact ⟨_, .newVar kind quantification level issues⟩

theorem close_issues {choose : FreeVar → Bool} {type : Ty MetaVar} {scheme : Scheme}
    (closes : store.close choose type = .ok (scheme, grown)) :
    ∃ whole, store.Issues whole grown ∧ Issued.Among ⟨[], scheme.owned, []⟩ whole := by
  rw [close_eq_of_free fun _ => free_of_close closes] at closes
  cases closes
  refine ⟨_, store.issues_newBounds (store.ownedBy choose type).length,
    List.nil_subperm, List.Perm.subperm ?_, List.nil_subperm⟩
  have distinct : (store.newBounds (store.ownedBy choose type).length).1.Nodup :=
    List.Nodup.of_map _ (store.issues_newBounds _).distinct.bounds
  rw [List.perm_ext_iff_of_nodup nodup_owned_closure distinct]
  intro param
  rw [mem_owned_closure, newBounds, List.mem_map]
  constructor
  · rintro ⟨v, vOwned, rfl⟩
    exact ⟨_, List.mem_range.mpr (List.idxOf_lt_length_of_mem vOwned), rfl⟩
  · rintro ⟨index, inside, rfl⟩
    have inRange := List.mem_range.mp inside
    refine ⟨_, List.getElem_mem inRange, ?_⟩
    have entered : (store.ownedBy choose type).Nodup :=
      Trail.nodup_entered_walk.filter _
    rw [boundFor, entered.idxOf_getElem]

end Store

end TypedMatch
