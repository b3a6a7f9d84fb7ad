import Mathlib.Data.List.Basic

/-!
# Texts that end by themselves

Where a text is followed by others without anything between them, it can be told apart if it consists of one
sort of characters and what follows begins with none of that sort.  So it is with the digits of a number
that no digit follows.
-/

set_option autoImplicit false

namespace TypedMatch.Text

def Stops (sort : Char → Bool) (rest : List Char) : Prop := ∀ first ∈ rest.head?, sort first = false

theorem stops_nil (sort : Char → Bool) : Stops sort [] := fun _ among => nomatch among

theorem stops_cons {sort : Char → Bool} {first : Char} {rest : List Char} :
    Stops sort (first :: rest) ↔ sort first = false := by
  simp [Stops]

theorem takeWhile_append_of_stops {sort : Char → Bool} {word rest : List Char}
    (ofSort : ∀ character ∈ word, sort character = true) (stops : Stops sort rest) :
    (word ++ rest).takeWhile sort = word := by
  rw [List.takeWhile_append_of_pos ofSort]
  cases rest with
  | nil => rw [List.takeWhile_nil, List.append_nil]
  | cons first rest =>
      have outside : ¬sort first = true := by simp [stops_cons.mp stops]
      rw [List.takeWhile_cons_of_neg outside, List.append_nil]

theorem append_inj_of_stops {sort : Char → Bool} {word other rest more : List Char}
    (ofSort : ∀ character ∈ word, sort character = true)
    (otherOfSort : ∀ character ∈ other, sort character = true)
    (stops : Stops sort rest) (moreStops : Stops sort more) (same : word ++ rest = other ++ more) :
    word = other ∧ rest = more := by
  have sameWord : word = other := by
    rw [← takeWhile_append_of_stops ofSort stops, same, takeWhile_append_of_stops otherOfSort moreStops]
  subst sameWord
  exact ⟨rfl, List.append_cancel_left same⟩

theorem toList_toString (number : Nat) : (toString number).toList = Nat.toDigits 10 number := by
  rw [Nat.toString_eq_ofList_toDigits, String.toList_ofList]

theorem isDigit_of_mem_toDigits {number : Nat} :
    ∀ character ∈ Nat.toDigits 10 number, character.isDigit = true :=
  fun _ => Nat.isDigit_of_mem_toDigits (by omega) (by omega)

/-- A number ends where its digits end. -/
theorem toString_append_inj {number other : Nat} {rest more : List Char} (stops : Stops Char.isDigit rest)
    (moreStops : Stops Char.isDigit more)
    (same : (toString number).toList ++ rest = (toString other).toList ++ more) :
    number = other ∧ rest = more := by
  rw [toList_toString, toList_toString] at same
  obtain ⟨sameDigits, sameRest⟩ :=
    append_inj_of_stops isDigit_of_mem_toDigits isDigit_of_mem_toDigits stops moreStops same
  have sameNumber := congrArg (Nat.ofDigitChars 10 · 0) sameDigits
  rw [Nat.ofDigitChars_ten_toDigits, Nat.ofDigitChars_ten_toDigits] at sameNumber
  exact ⟨sameNumber, sameRest⟩

end TypedMatch.Text
