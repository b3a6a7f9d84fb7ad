import Mathlib.Data.List.Forall2

/-!
# Lists with repetitions

A list repeats another one if it has the same items in the same order, but for items that come again after
they have come before.  The relation is kept by whatever is done to all items and by putting lists in a row,
and it disappears where repetitions are removed.
-/

set_option autoImplicit false

namespace TypedMatch

/-- Whether the second list is the first one with repetitions: items that stand before them in it, or have
been seen earlier, may be listed again. -/
inductive Repeats {Item : Type} : List Item → List Item → List Item → Prop where
  | nil {seen : List Item} : Repeats seen [] []
  | first {seen once many : List Item} {item : Item} : Repeats (item :: seen) once many →
      Repeats seen (item :: once) (item :: many)
  | again {seen once many : List Item} {item : Item} : item ∈ seen → Repeats seen once many →
      Repeats seen once (item :: many)

namespace Repeats

variable {Item Image : Type} {seen more once many once' many' : List Item}

theorem mono (repeats : Repeats seen once many) (subset : ∀ item ∈ seen, item ∈ more) :
    Repeats more once many := by
  induction repeats generalizing more with
  | nil => exact .nil
  | @first seen _ _ item _ inductionHypothesis =>
      refine .first (inductionHypothesis (List.forall_mem_cons.mpr ⟨.head _, ?_⟩))
      exact fun other among => .tail _ (subset other among)
  | again among _ inductionHypothesis => exact .again (subset _ among) (inductionHypothesis subset)

theorem refl (seen once : List Item) : Repeats seen once once := by
  induction once generalizing seen with
  | nil => exact .nil
  | cons item rest inductionHypothesis => exact .first (inductionHypothesis _)

theorem of_subset (subset : ∀ item ∈ many, item ∈ seen) : Repeats seen [] many := by
  induction many with
  | nil => exact .nil
  | cons item rest inductionHypothesis =>
      obtain ⟨first, others⟩ := List.forall_mem_cons.mp subset
      exact .again first (inductionHypothesis others)

theorem append (repeats : Repeats seen once many)
    (further : Repeats (once.reverse ++ seen) once' many') :
    Repeats seen (once ++ once') (many ++ many') := by
  induction repeats with
  | nil => exact further
  | first _ inductionHypothesis =>
      rw [List.reverse_cons, List.append_assoc] at further
      exact .first (inductionHypothesis further)
  | again among _ inductionHypothesis => exact .again among (inductionHypothesis further)

theorem twice (once : List Item) : Repeats [] once (once ++ once) := by
  have repeated : Repeats [] (once ++ []) (once ++ once) := by
    refine (refl [] once).append (of_subset fun item among => ?_)
    exact List.mem_append_left _ (List.mem_reverse.mpr among)
  rwa [List.append_nil] at repeated

theorem filterMap (repeats : Repeats seen once many) (change : Item → Option Image) :
    Repeats (seen.filterMap change) (once.filterMap change) (many.filterMap change) := by
  induction repeats with
  | nil => exact .nil
  | @first _ _ _ item _ inductionHypothesis =>
      cases changed : change item with
      | none => simpa only [List.filterMap_cons_none changed] using inductionHypothesis
      | some image =>
          simp only [List.filterMap_cons_some changed] at inductionHypothesis ⊢
          exact .first inductionHypothesis
  | @again _ _ _ item among _ inductionHypothesis =>
      cases changed : change item with
      | none => simpa only [List.filterMap_cons_none changed] using inductionHypothesis
      | some image =>
          rw [List.filterMap_cons_some changed]
          exact .again (List.mem_filterMap.mpr ⟨item, among, changed⟩) inductionHypothesis

theorem map (repeats : Repeats seen once many) (change : Item → Image) :
    Repeats (seen.map change) (once.map change) (many.map change) := by
  simpa only [List.filterMap_eq_map] using repeats.filterMap (some ∘ change)

theorem mem_of_mem (repeats : Repeats seen once many) {item : Item} (among : item ∈ once) :
    item ∈ many := by
  induction repeats with
  | nil => exact among
  | first _ inductionHypothesis =>
      rcases List.mem_cons.mp among with rfl | inRest
      · exact .head _
      · exact .tail _ (inductionHypothesis inRest)
  | again _ _ inductionHypothesis => exact .tail _ (inductionHypothesis among)

theorem mem_or_mem (repeats : Repeats seen once many) {item : Item} (among : item ∈ many) :
    item ∈ seen ∨ item ∈ once := by
  induction repeats with
  | nil => exact .inr among
  | first _ inductionHypothesis =>
      rcases List.mem_cons.mp among with rfl | inRest
      · exact .inr (.head _)
      · rcases inductionHypothesis inRest with inSeen | inOnce
        · rcases List.mem_cons.mp inSeen with rfl | inSeen
          · exact .inr (.head _)
          · exact .inl inSeen
        · exact .inr (.tail _ inOnce)
  | again inSeen _ inductionHypothesis =>
      rcases List.mem_cons.mp among with rfl | inRest
      · exact .inl inSeen
      · exact inductionHypothesis inRest

theorem mem_iff (repeats : Repeats [] once many) {item : Item} : item ∈ many ↔ item ∈ once :=
  ⟨fun among => (repeats.mem_or_mem among).resolve_left (List.not_mem_nil), repeats.mem_of_mem⟩

theorem exists_forall₂ {related : Item → Image → Prop} {seenImages images : List Image}
    (repeats : Repeats seen once many)
    (seenRelated : ∀ item ∈ seen, ∃ image ∈ seenImages, related item image)
    (each : List.Forall₂ related once images) :
    ∃ manyImages, List.Forall₂ related many manyImages ∧ Repeats seenImages images manyImages := by
  induction repeats generalizing seenImages images with
  | nil =>
      cases each
      exact ⟨[], .nil, .nil⟩
  | first _ inductionHypothesis =>
      cases each with
      | @cons _ image _ _ isRelated rest =>
          have moreRelated := fun item among =>
            (seenRelated item among).imp fun _ => And.imp_left (List.mem_cons_of_mem image)
          obtain ⟨manyImages, manyRelated, repeated⟩ := inductionHypothesis
            (List.forall_mem_cons.mpr ⟨⟨image, .head _, isRelated⟩, moreRelated⟩) rest
          exact ⟨image :: manyImages, .cons isRelated manyRelated, .first repeated⟩
  | again among _ inductionHypothesis =>
      obtain ⟨image, imageAmong, isRelated⟩ := seenRelated _ among
      obtain ⟨manyImages, manyRelated, repeated⟩ := inductionHypothesis seenRelated each
      exact ⟨image :: manyImages, .cons isRelated manyRelated, .again imageAmong repeated⟩

theorem exists_forall₂_of_many {related : Item → Image → Prop} {manyImages : List Image}
    (repeats : Repeats seen once many) (each : List.Forall₂ related many manyImages) :
    ∃ images, List.Forall₂ related once images := by
  induction repeats generalizing manyImages with
  | nil => exact ⟨[], .nil⟩
  | first _ inductionHypothesis =>
      cases each with
      | cons isRelated rest =>
          obtain ⟨images, onceRelated⟩ := inductionHypothesis rest
          exact ⟨_ :: images, .cons isRelated onceRelated⟩
  | again _ _ inductionHypothesis =>
      cases each with
      | cons _ rest => exact inductionHypothesis rest

section EraseDups

variable [BEq Item] [LawfulBEq Item]

theorem eraseDups_append_eq (repeats : Repeats seen once many) :
    (seen.reverse ++ many).eraseDups = (seen.reverse ++ once).eraseDups := by
  induction repeats with
  | nil => rfl
  | first _ inductionHypothesis =>
      rw [List.reverse_cons, List.append_assoc, List.append_assoc] at inductionHypothesis
      exact inductionHypothesis
  | @again seen _ many item among _ inductionHypothesis =>
      have known : item ∈ seen.reverse := List.mem_reverse.mpr among
      rw [← inductionHypothesis, List.eraseDups_append, List.eraseDups_append, List.cons_removeAll]
      simp [known]

theorem eraseDups_eq (repeats : Repeats [] once many) : many.eraseDups = once.eraseDups :=
  repeats.eraseDups_append_eq

end EraseDups

end Repeats

end TypedMatch
