import Mathlib.Data.Set.Function
import TypedMatch.Proofs.Coverage.Opening
import TypedMatch.Proofs.Ty.Reading
import TypedMatch.Store.Text

/-!
# Names in the order of first occurrence

Every position has a name of its own, also beyond the letters, and a name is a word.  So the texts of two
legible types are the same just if the types are, with the positions of first occurrences and the marks for
variables.  Types that are the same with positions for their variables differ in a renaming of the variables
and in nothing else.
-/

set_option autoImplicit false

namespace TypedMatch

/-! ## Names -/

namespace ShownVar

theorem letter_inj : ∀ position < 26, ∀ other < 26,
    Char.ofNat ('a'.toNat + position) = Char.ofNat ('a'.toNat + other) → position = other := by
  decide

theorem letter_ne_mark : ∀ position < 26, Char.ofNat ('a'.toNat + position) ≠ '_' := by
  decide

theorem isWordChar_letter : ∀ position < 26, isWordChar (Char.ofNat ('a'.toNat + position)) = true := by
  decide

theorem toList_name (position : Nat) : (name position).toList
    = Char.ofNat ('a'.toNat + position % 26)
      :: if position < 26 then [] else (toString (position / 26)).toList := by
  rw [name]
  by_cases first : position < 26
  · simp [first]
  · simp [first]

theorem name_injective : Function.Injective name := by
  intro position other same
  have chars := congrArg String.toList same
  rw [toList_name, toList_name] at chars
  obtain ⟨sameLetter, sameRound⟩ := List.cons.inj chars
  have letters : position % 26 = other % 26 :=
    letter_inj _ (Nat.mod_lt _ (by omega)) _ (Nat.mod_lt _ (by omega)) sameLetter
  have numbered (round : Nat) : (toString round).toList ≠ [] := by
    intro empty
    exact Nat.repr_ne_empty (String.toList_inj.mp empty)
  by_cases first : position < 26
  · by_cases otherFirst : other < 26
    · omega
    · rw [if_pos first, if_neg otherFirst] at sameRound
      exact absurd sameRound.symm (numbered _)
  · by_cases otherFirst : other < 26
    · rw [if_neg first, if_pos otherFirst] at sameRound
      exact absurd sameRound (numbered _)
    · rw [if_neg first, if_neg otherFirst] at sameRound
      have rounds : position / 26 = other / 26 := Nat.repr_injective (String.toList_inj.mp sameRound)
      omega

theorem isWordChar_of_isDigit {c : Char} (digit : c.isDigit = true) : isWordChar c = true := by
  simp only [isWordChar, List.mem_cons, List.not_mem_nil, or_false, decide_eq_true_eq, not_or]
  refine ⟨?_, ?_, ?_, ?_, ?_, ?_, ?_, ?_, ?_, ?_, ?_, ?_⟩ <;> (rintro rfl; cases digit)

theorem isWordChar_name (position : Nat) : ∀ c ∈ (name position).toList, isWordChar c = true := by
  rw [toList_name, List.forall_mem_cons]
  refine ⟨isWordChar_letter _ (Nat.mod_lt _ (by omega)), ?_⟩
  intro c among
  split at among
  · cases among
  · change c ∈ (Nat.repr _).toList at among
    rw [Nat.repr_eq_ofList_toDigits, String.toList_ofList] at among
    exact isWordChar_of_isDigit (Nat.isDigit_of_mem_toDigits (by omega) (by omega) among)

/-- What is written after the tick: the mark of a weak variable, and the name at a position. -/
def word (sign : Bool × Nat) : String := (if sign.1 then "_" else "") ++ name sign.2

theorem word_injective : Function.Injective word := by
  intro sign other same
  obtain ⟨weak, position⟩ := sign
  obtain ⟨otherWeak, otherPosition⟩ := other
  have chars := congrArg String.toList same
  -- The first letter of a name is not the mark, so neither text has a mark where the other has none.
  have unmarked (position : Nat) {rest : List Char} : '_' :: rest ≠ (name position).toList := by
    rw [toList_name]
    intro sameList
    exact letter_ne_mark _ (Nat.mod_lt _ (by omega)) (List.cons.inj sameList).1.symm
  cases weak with
  | false =>
      cases otherWeak with
      | false =>
          simp only [word, Bool.false_eq_true, if_false, String.empty_append] at same
          rw [name_injective same]
      | true =>
          simp only [word, Bool.false_eq_true, if_false, if_true, String.empty_append,
            String.toList_append] at chars
          exact absurd chars.symm (unmarked _)
  | true =>
      cases otherWeak with
      | false =>
          simp only [word, Bool.false_eq_true, if_false, if_true, String.empty_append,
            String.toList_append] at chars
          exact absurd chars (unmarked _)
      | true =>
          simp only [word, if_true, String.toList_append] at chars
          rw [name_injective (String.toList_inj.mp (List.append_cancel_left chars))]

theorem isWordChar_word (sign : Bool × Nat) : ∀ c ∈ (word sign).toList, isWordChar c = true := by
  intro c among
  rw [word, String.toList_append, List.mem_append] at among
  apply among.elim
  · intro isMark
    split at isMark
    · rw [List.mem_singleton.mp isMark]
      rfl
    · cases isMark
  · exact isWordChar_name sign.2 c

end ShownVar

/-! ## First occurrences -/

def firstPosition {Item : Type} [DecidableEq Item] (items : List Item) (item : Item) : Nat :=
  items.eraseDups.idxOf item

section FirstPosition

variable {Item Image : Type} [DecidableEq Item] [DecidableEq Image] {items : List Item}

theorem firstPosition_inj {item other : Item} (among : item ∈ items)
    (same : firstPosition items item = firstPosition items other) : item = other :=
  (List.idxOf_inj (List.mem_eraseDups.mpr among)).mp same

theorem firstPosition_map {rename : Item → Image} (items : List Item)
    (injective : ∀ item ∈ items, ∀ other ∈ items, rename item = rename other → item = other)
    {item : Item} (among : item ∈ items) :
    firstPosition (items.map rename) (rename item) = firstPosition items item := by
  match items with
  | [] => cases among
  | first :: rest =>
      -- Without the first item on both sides the lists are still renamed forms of each other, but shorter.
      have sameFilter : (rest.map rename).filter (fun image => !image == rename first)
          = (rest.filter fun other => !other == first).map rename := by
        rw [List.filter_map]
        congr 1
        apply List.filter_congr
        intro other inRest
        by_cases same : other = first
        · simp [same]
        · have different := mt (injective other (.tail _ inRest) first (.head _)) same
          simp [same, different]
      rw [firstPosition, firstPosition, List.map_cons, List.eraseDups_cons, List.eraseDups_cons, sameFilter]
      by_cases isFirst : item = first
      · rw [isFirst, List.idxOf_cons_self, List.idxOf_cons_self]
      · have different : rename first ≠ rename item := by
          intro same
          exact isFirst (injective item among first (.head _) same.symm)
        have later : item ∈ rest.filter fun other => !other == first := by
          refine List.mem_filter.mpr ⟨(List.mem_cons.mp among).resolve_left isFirst, ?_⟩
          simp [isFirst]
        have further := firstPosition_map (rest.filter fun other => !other == first)
          (fun one oneAmong two twoAmong => injective one (.tail _ (List.mem_filter.mp oneAmong).1) two
            (.tail _ (List.mem_filter.mp twoAmong).1)) later
        rw [List.idxOf_cons_ne _ different, List.idxOf_cons_ne _ (Ne.symm isFirst)]
        exact congrArg Nat.succ further
termination_by items.length
decreasing_by
  have shorter := List.length_filter_le (fun other => !other == first) rest
  rw [List.length_cons]
  omega

end FirstPosition

namespace Ty

theorem map_injective {Var NewVar : Type} [Nonempty Var] {rename : Var → NewVar}
    (injective : Function.Injective rename) : Function.Injective (map rename) := by
  obtain ⟨back, back_rename⟩ := injective.hasLeftInverse
  intro type other same
  have kept (type : Ty Var) : (type.map rename).map back = type := by
    rw [map_map, map_congr type fun v _ => back_rename v]
    exact bind_var type
  rw [← kept type, same, kept other]

/-! ## Positions for variables -/

section Positions

variable {Var Other : Type}

/-- Whether a type becomes another one when its variables are renamed, one to one. -/
def Renamed (type : Ty Var) (other : Ty Other) : Prop :=
  ∃ rename : Var → Other, Set.BijOn rename {v | v ∈ type.leaves} {w | w ∈ other.leaves} ∧
    type.map rename = other

variable [DecidableEq Var] [DecidableEq Other]

def numbered (type : Ty Var) : Ty Nat := type.map (firstPosition type.leaves)

/-- Types are the same with positions for their variables just if one is a renamed form of the other. -/
theorem numbered_eq_iff {type : Ty Var} {other : Ty Other} [Nonempty Other] :
    type.numbered = other.numbered ↔ type.Renamed other := by
  constructor
  · intro same
    let position := firstPosition type.leaves
    let otherPosition := firstPosition other.leaves
    have samePositions : type.leaves.map position = other.leaves.map otherPosition := by
      rw [← leaves_map, ← leaves_map]
      exact congrArg leaves same
    -- A variable of one type goes to the variable of the other that first occurs in the same position.
    let back : Nat → Other := Function.invFunOn otherPosition {w | w ∈ other.leaves}
    have back_position {w : Other} (occurs : w ∈ other.leaves) : back (otherPosition w) = w := by
      have injective : Set.InjOn otherPosition {w | w ∈ other.leaves} :=
        fun _ occurs _ _ => firstPosition_inj occurs
      exact injective.leftInvOn_invFunOn occurs
    have placed {v : Var} (occurs : v ∈ type.leaves) :
        ∃ w ∈ other.leaves, otherPosition w = position v := by
      have listed := List.mem_map_of_mem (f := position) occurs
      rw [samePositions] at listed
      exact List.mem_map.mp listed
    refine ⟨fun v => back (position v), ⟨?_, ?_, ?_⟩, ?_⟩
    · intro v occurs
      obtain ⟨w, wOccurs, samePlace⟩ := placed occurs
      change back (position v) ∈ other.leaves
      rw [← samePlace, back_position wOccurs]
      exact wOccurs
    · intro v occurs u uOccurs sameBack
      obtain ⟨w, wOccurs, samePlace⟩ := placed occurs
      obtain ⟨x, xOccurs, sameOther⟩ := placed uOccurs
      change back (position v) = back (position u) at sameBack
      rw [← samePlace, ← sameOther, back_position wOccurs, back_position xOccurs] at sameBack
      apply firstPosition_inj occurs
      change position v = position u
      rw [← samePlace, ← sameOther, sameBack]
    · intro w occurs
      have listed := List.mem_map_of_mem (f := otherPosition) (show w ∈ other.leaves from occurs)
      rw [← samePositions] at listed
      obtain ⟨v, vOccurs, samePlace⟩ := List.mem_map.mp listed
      refine ⟨v, vOccurs, ?_⟩
      change back (position v) = w
      rw [samePlace, back_position occurs]
    · calc type.map (fun v => back (position v))
          = type.numbered.map back := (map_map _ _ type).symm
        _ = other.numbered.map back := by rw [same]
        _ = other.map fun w => back (otherPosition w) := map_map _ _ other
        _ = other.map fun w => w := map_congr other fun w occurs => back_position occurs
        _ = other := bind_var other
  · rintro ⟨rename, bijective, rfl⟩
    have renamed : (type.map rename).leaves = type.leaves.map rename := leaves_map rename type
    rw [numbered, numbered, map_map, renamed]
    apply map_congr
    intro v occurs
    exact (firstPosition_map type.leaves
      (fun one oneOccurs two twoOccurs => bijective.injOn oneOccurs twoOccurs) occurs).symm

end Positions

/-! ## Texts -/

def signed (type : Ty ShownVar) : Ty (Bool × Nat) :=
  type.byName.map fun shown => (shown.weak, firstPosition (type.shown.map ShownVar.var) shown.var)

theorem named_eq_text (type : Ty ShownVar) :
    type.named = type.text (fun shown => "'" ++ ShownVar.word
      (shown.weak, firstPosition (type.shown.map ShownVar.var) shown.var)) .whole := by
  rw [named]
  congr 1
  funext shown
  cases weak : shown.weak with
  | false => simp [ShownVar.mark, ShownVar.word, weak, firstPosition]
  | true => simp [ShownVar.mark, ShownVar.word, weak, firstPosition, ← String.append_assoc]

/-- Legible types are written alike just if they are the same by name, with the same marks and positions. -/
theorem named_eq_iff {type other : Ty ShownVar} (legible : type.legible = true)
    (otherLegible : other.legible = true) : type.named = other.named ↔ type.signed = other.signed := by
  have worded (type : Ty ShownVar) : type.byName.map (fun shown => ShownVar.word
      (shown.weak, firstPosition (type.shown.map ShownVar.var) shown.var)) = type.signed.map ShownVar.word :=
    (map_map _ ShownVar.word type.byName).symm
  rw [named_eq_text, named_eq_text, text_eq_iff (fun _ => ShownVar.isWordChar_word _)
    (fun _ => ShownVar.isWordChar_word _) legible otherLegible, worded, worded]
  exact (map_injective ShownVar.word_injective).eq_iff

end Ty

end TypedMatch
