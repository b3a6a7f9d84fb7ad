import TypedMatch.Proofs.Text.Prefixes
import TypedMatch.Text.Quoted

/-!
# Quoted texts end by themselves

No character is written with the beginning of what another one is written with, and none is written with a
double quote in front.  So a quoted text can be read off whatever follows it, whichever quotes, backslashes and
controls it has.
-/

set_option autoImplicit false

namespace TypedMatch.Text

/-! ## Hexadecimal numbers -/

def hexDigits : List Char :=
  ['0', '1', '2', '3', '4', '5', '6', '7', '8', '9', 'a', 'b', 'c', 'd', 'e', 'f']

def isHexDigit (character : Char) : Bool := hexDigits.contains character

theorem toDigits_sixteen (number : Nat) : Nat.toDigits 16 number =
    (if number < 16 then [] else Nat.toDigits 16 (number / 16)) ++ [(number % 16).digitChar] := by
  rw [Nat.toDigits_eq_if (by omega)]
  split
  · rename_i small
    rw [Nat.mod_eq_of_lt small, List.nil_append]
  · rfl

theorem isHexDigit_of_mem_toDigits {number : Nat} :
    ∀ character ∈ Nat.toDigits 16 number, isHexDigit character = true := by
  have digit : ∀ value < 16, isHexDigit value.digitChar = true := by decide
  induction number using Nat.strongRecOn with
  | ind number inductionHypothesis =>
      intro character among
      rw [toDigits_sixteen, List.mem_append, List.mem_singleton] at among
      rcases among with before | rfl
      · split at before
        · cases before
        · exact inductionHypothesis (number / 16) (by omega) character before
      · exact digit _ (Nat.mod_lt _ (by omega))

theorem toDigits_sixteen_injective : Function.Injective (Nat.toDigits 16) := by
  have digit : ∀ value < 16, ∀ other < 16, value.digitChar = other.digitChar → value = other := by decide
  intro number
  induction number using Nat.strongRecOn with
  | ind number inductionHypothesis =>
      intro other same
      rw [toDigits_sixteen number, toDigits_sixteen other] at same
      obtain ⟨sameBefore, sameLast⟩ := List.append_inj' same rfl
      have sameDigit := digit _ (Nat.mod_lt _ (by omega)) _ (Nat.mod_lt _ (by omega)) (List.cons.inj sameLast).1
      by_cases small : number < 16
      · by_cases otherSmall : other < 16
        · omega
        · rw [if_pos small, if_neg otherSmall] at sameBefore
          exact absurd sameBefore.symm Nat.toDigits_ne_nil
      · by_cases otherSmall : other < 16
        · rw [if_neg small, if_pos otherSmall] at sameBefore
          exact absurd sameBefore Nat.toDigits_ne_nil
        · rw [if_neg small, if_neg otherSmall] at sameBefore
          have sameQuotient := inductionHypothesis (number / 16) (by omega) sameBefore
          omega

/-! ## Escapes -/

def marks : List (Char × Char) :=
  [('\x00', '0'), ('\t', 't'), ('\r', 'r'), ('\n', 'n'), ('"', '"'), ('\\', '\\')]

theorem escape_cases (character : Char) :
    (∃ mark, (character, mark) ∈ marks ∧ escape character = ['\\', mark]) ∨
    escape character = '\\' :: 'u' :: '\x7b' :: (Nat.toDigits 16 character.toNat ++ ['\x7d']) ∨
    (character ≠ '\\' ∧ character ≠ '"' ∧ escape character = [character]) := by
  unfold escape
  split
  · exact .inl ⟨'0', by decide, rfl⟩
  · exact .inl ⟨'t', by decide, rfl⟩
  · exact .inl ⟨'r', by decide, rfl⟩
  · exact .inl ⟨'n', by decide, rfl⟩
  · exact .inl ⟨'"', by decide, rfl⟩
  · exact .inl ⟨'\\', by decide, rfl⟩
  · rename_i noQuote noBackslash
    split
    · exact .inr (.inl rfl)
    · exact .inr (.inr ⟨noBackslash, noQuote, rfl⟩)

theorem escape_append_inj {character other : Char} {rest more : List Char}
    (same : escape character ++ rest = escape other ++ more) : character = other ∧ rest = more := by
  have sameMark : ∀ entry ∈ marks, ∀ second ∈ marks, entry.2 = second.2 → entry.1 = second.1 := by decide
  have noCode : ∀ entry ∈ marks, entry.2 ≠ 'u' := by decide
  rcases escape_cases character with ⟨mark, marked, spelled⟩ | spelled | ⟨noBackslash, -, spelled⟩ <;>
    rcases escape_cases other with ⟨otherMark, otherMarked, otherSpelled⟩ | otherSpelled |
      ⟨otherNoBackslash, -, otherSpelled⟩ <;>
    rw [spelled, otherSpelled] at same
  case inl.inl =>
    simp only [List.cons_append, List.cons.injEq, true_and, List.nil_append] at same
    exact ⟨sameMark _ marked _ otherMarked same.1, same.2⟩
  case inl.inr.inl =>
    simp only [List.cons_append, List.cons.injEq, true_and] at same
    exact absurd same.1 (noCode _ marked)
  case inl.inr.inr => exact absurd (List.cons.inj same).1.symm otherNoBackslash
  case inr.inl.inl =>
    simp only [List.cons_append, List.cons.injEq, true_and] at same
    exact absurd same.1.symm (noCode _ otherMarked)
  case inr.inl.inr.inl =>
    simp only [List.cons_append, List.cons.injEq, true_and, List.append_assoc, List.nil_append] at same
    obtain ⟨sameDigits, closed⟩ := append_inj_of_stops isHexDigit_of_mem_toDigits isHexDigit_of_mem_toDigits
      (stops_cons.mpr (by decide)) (stops_cons.mpr (by decide)) same
    exact ⟨Char.toNat_inj.mp (toDigits_sixteen_injective sameDigits), (List.cons.inj closed).2⟩
  case inr.inl.inr.inr => exact absurd (List.cons.inj same).1.symm otherNoBackslash
  case inr.inr.inl => exact absurd (List.cons.inj same).1 noBackslash
  case inr.inr.inr.inl => exact absurd (List.cons.inj same).1 noBackslash
  case inr.inr.inr.inr => exact List.cons.inj same

theorem escape_eq_cons (character : Char) : ∃ first rest, escape character = first :: rest ∧ first ≠ '"' := by
  rcases escape_cases character with ⟨mark, -, spelled⟩ | spelled | ⟨-, noQuote, spelled⟩
  · exact ⟨_, _, spelled, by decide⟩
  · exact ⟨_, _, spelled, by decide⟩
  · exact ⟨_, _, spelled, noQuote⟩

theorem escapes_append_inj {characters others rest more : List Char}
    (same : characters.flatMap escape ++ '"' :: rest = others.flatMap escape ++ '"' :: more) :
    characters = others ∧ rest = more := by
  induction characters generalizing others with
  | nil =>
      cases others with
      | nil => exact ⟨rfl, (List.cons.inj same).2⟩
      | cons other others =>
          obtain ⟨first, following, spelled, noQuote⟩ := escape_eq_cons other
          rw [List.flatMap_cons, spelled] at same
          exact absurd (List.cons.inj same).1.symm noQuote
  | cons character characters inductionHypothesis =>
      cases others with
      | nil =>
          obtain ⟨first, following, spelled, noQuote⟩ := escape_eq_cons character
          rw [List.flatMap_cons, spelled] at same
          exact absurd (List.cons.inj same).1 noQuote
      | cons other others =>
          rw [List.flatMap_cons, List.flatMap_cons, List.append_assoc, List.append_assoc] at same
          obtain ⟨rfl, sameRest⟩ := escape_append_inj same
          obtain ⟨rfl, sameEnd⟩ := inductionHypothesis sameRest
          exact ⟨rfl, sameEnd⟩

/-- A quoted text ends where its own closing quote is. -/
theorem quoted_append_inj {text other : String} {rest more : List Char}
    (same : (quoted text).toList ++ rest = (quoted other).toList ++ more) : text = other ∧ rest = more := by
  simp only [toList_quoted, List.cons_append, List.append_assoc, List.cons.injEq, true_and, List.nil_append]
    at same
  obtain ⟨sameCharacters, sameRest⟩ := escapes_append_inj same
  exact ⟨String.toList_inj.mp sameCharacters, sameRest⟩

end TypedMatch.Text
