import TypedMatch.Proofs.Coverage.Opening

/-!
# Samples of what is not listed

The literal that stands for all that are not listed is found by looking at one candidate after the other:
the integers from zero on, or the strings of ever more crosses.  No candidate comes twice, so a list passes
at most as many of them as it has items.  That ends every search, and it keeps the integers far away from
those that do not fit into 64 bits.
-/

set_option autoImplicit false

namespace TypedMatch

/-- How a search ends that looks at one candidate after the other, and how many candidates it passes.  The
one after the present candidate is made first; if that fails, so does the search. -/
inductive Search {Item : Type} (next : Item → Except Fault Item) (listed : List Item) :
    Item → Nat → Except Fault Item → Prop where
  | found {candidate further : Item} : next candidate = .ok further → candidate ∉ listed →
      Search next listed candidate 0 (.ok candidate)
  | passed {candidate further : Item} {rounds : Nat} {result : Except Fault Item} :
      next candidate = .ok further → candidate ∈ listed → Search next listed further rounds result →
      Search next listed candidate (rounds + 1) result
  | failed {candidate : Item} {fault : Fault} : next candidate = .error fault →
      Search next listed candidate 0 (.error fault)

def nextInt (value : Int) : Except Fault Int :=
  if IsWord (value + 1) then .ok (value + 1) else .error .numberOverflow

def nextStr (value : String) : Except Fault String := .ok (value.push 'x')

namespace Search

variable {Item : Type} {next : Item → Except Fault Item} {listed : List Item} {start : Item}

theorem unique {rounds others : Nat} {result other : Except Fault Item}
    (ends : Search next listed start rounds result) (otherwise : Search next listed start others other) :
    rounds = others ∧ result = other := by
  induction ends generalizing others other with
  | found made unlisted =>
      cases otherwise with
      | found _ _ => exact ⟨rfl, rfl⟩
      | passed _ isListed _ => exact absurd isListed unlisted
      | failed fails => cases made.symm.trans fails
  | passed made isListed _ inductionHypothesis =>
      cases otherwise with
      | found _ unlisted => exact absurd isListed unlisted
      | passed otherMade _ further =>
          cases made.symm.trans otherMade
          obtain ⟨sameRounds, sameResult⟩ := inductionHypothesis further
          exact ⟨congrArg (· + 1) sameRounds, sameResult⟩
      | failed fails => cases made.symm.trans fails
  | failed fails =>
      cases otherwise with
      | found made _ | passed made _ _ => cases fails.symm.trans made
      | failed otherFails =>
          cases fails.symm.trans otherFails
          exact ⟨rfl, rfl⟩

/-- A search passes the candidates that are listed and finds the first one that is not, if all of these can
be made. -/
theorem of_listed {candidate : Nat → Item} {count : Nat}
    (made : ∀ number ≤ count, next (candidate number) = .ok (candidate (number + 1)))
    (isListed : ∀ number < count, candidate number ∈ listed) (unlisted : candidate count ∉ listed) :
    Search next listed (candidate 0) count (.ok (candidate count)) := by
  have later : ∀ rounds number, number + rounds = count →
      Search next listed (candidate number) rounds (.ok (candidate count)) := by
    intro rounds
    induction rounds with
    | zero =>
        rintro number rfl
        exact .found (made _ (Nat.le_refl _)) unlisted
    | succ rounds inductionHypothesis =>
        intro number reaches
        exact .passed (made number (by omega)) (isListed number (by omega))
          (inductionHypothesis (number + 1) (by omega))
  exact later count 0 (Nat.zero_add count)

theorem iff_of_ends {rounds : Nat} {result : Except Fault Item}
    (ends : Search next listed start rounds result) (others : Nat) (other : Except Fault Item) :
    Search next listed start others other ↔ others = rounds ∧ other = result := by
  constructor
  · exact fun otherwise => otherwise.unique ends
  · rintro ⟨rfl, rfl⟩
    exact ends

end Search

theorem mem_of_lt_sampleInt {listed : List Int} {number : Nat}
    (below : (number : Int) < sampleInt listed) : (number : Int) ∈ listed :=
  List.contains_iff_mem.mp (taken_of_lt_leastFree (Int.ofNat_lt.mp below))

theorem isLeast_sampleInt (listed : List Int) :
    IsLeast {value | 0 ≤ value ∧ value ∉ listed} (sampleInt listed) := by
  obtain ⟨unlisted, nonnegative, _⟩ := sampleInt_spec listed
  refine ⟨⟨nonnegative, unlisted⟩, ?_⟩
  rintro value ⟨positive, valueUnlisted⟩
  by_contra below
  obtain ⟨number, rfl⟩ := Int.eq_ofNat_of_zero_le positive
  exact valueUnlisted (mem_of_lt_sampleInt (Int.not_le.mp below))

/-- The integers that are looked at are no more than are listed and one, so all of them fit into 64 bits. -/
theorem search_sampleInt {listed : List Int} (few : listed.length < 2 ^ 63 - 1) :
    Search nextInt listed 0 (sampleInt listed).toNat (.ok (sampleInt listed)) := by
  obtain ⟨unlisted, nonnegative, bounded⟩ := sampleInt_spec listed
  have isSample : ((sampleInt listed).toNat : Int) = sampleInt listed := Int.toNat_of_nonneg nonnegative
  have ends : Search nextInt listed ((0 : Nat) : Int) (sampleInt listed).toNat
      (.ok ((sampleInt listed).toNat : Int)) := by
    refine @Search.of_listed Int nextInt listed Nat.cast _ ?_ ?_ ?_
    · intro number inRange
      have fits : IsWord ((number : Int) + 1) := ⟨by omega, by omega⟩
      exact if_pos fits
    · intro number below
      exact mem_of_lt_sampleInt (by omega)
    · rw [isSample]
      exact unlisted
  rw [isSample] at ends
  exact ends

/-! ## Strings of crosses -/

theorem crosses_succ (count : Nat) : crosses (count + 1) = (crosses count).push 'x' := by
  apply String.toList_injective
  simp [crosses, List.replicate_succ']

theorem length_crosses (count : Nat) : (crosses count).length = count := by
  simp [crosses]

theorem eq_of_mem_crosses {count : Nat} : ∀ letter ∈ (crosses count).toList, letter = 'x' := by
  intro letter among
  rw [crosses, String.toList_ofList] at among
  exact List.eq_of_mem_replicate among

theorem eq_crosses {text : String} (only : ∀ letter ∈ text.toList, letter = 'x') :
    text = crosses text.length := by
  apply String.toList_injective
  rw [crosses, String.toList_ofList, ← String.length_toList]
  exact List.eq_replicate_of_mem only

theorem sampleStr_eq (listed : List String) : sampleStr listed = crosses (sampleStr listed).length := by
  rw [sampleStr, length_crosses]

theorem mem_of_lt_sampleStr {listed : List String} {count : Nat}
    (below : count < (sampleStr listed).length) : crosses count ∈ listed := by
  rw [sampleStr, length_crosses] at below
  exact List.contains_iff_mem.mp (taken_of_lt_leastFree below)

theorem length_sampleStr_le {listed : List String} {text : String}
    (only : ∀ letter ∈ text.toList, letter = 'x') (unlisted : text ∉ listed) :
    (sampleStr listed).length ≤ text.length := by
  by_contra longer
  have isListed := mem_of_lt_sampleStr (Nat.not_le.mp longer)
  rw [← eq_crosses only] at isListed
  exact unlisted isListed

theorem length_sampleStr_le_length (listed : List String) :
    (sampleStr listed).length ≤ listed.length := by
  obtain ⟨count, low, unlisted⟩ := exists_le_length_not_mem crosses_injective listed
  have shortest := length_sampleStr_le eq_of_mem_crosses unlisted
  rw [length_crosses] at shortest
  exact Nat.le_trans shortest low

theorem search_sampleStr (listed : List String) :
    Search nextStr listed "" (sampleStr listed).length (.ok (sampleStr listed)) := by
  have ends : Search nextStr listed (crosses 0) (sampleStr listed).length
      (.ok (crosses (sampleStr listed).length)) := by
    refine Search.of_listed ?_ ?_ ?_
    · intro count _
      rw [crosses_succ]
      rfl
    · exact fun count below => mem_of_lt_sampleStr below
    · rw [← sampleStr_eq]
      exact sampleStr_not_mem listed
  rw [← sampleStr_eq] at ends
  exact ends

/-! ## Both samples -/

/-- A search for an integer or for a string that is not listed has one end, which is reached after no more
rounds than there are items on the list: it finds the sample.  This is the least integer from zero on, or the
shortest string of crosses, that is not listed. -/
theorem samples_found :
    (∀ listed : List Int, listed.length < 2 ^ 63 - 1 →
      (∀ rounds result, Search nextInt listed 0 rounds result ↔
        rounds = (sampleInt listed).toNat ∧ result = .ok (sampleInt listed)) ∧
      IsLeast {value | 0 ≤ value ∧ value ∉ listed} (sampleInt listed) ∧
      sampleInt listed ≤ listed.length) ∧
    ∀ listed : List String,
      (∀ rounds result, Search nextStr listed "" rounds result ↔
        rounds = (sampleStr listed).length ∧ result = .ok (sampleStr listed)) ∧
      (sampleStr listed).length ≤ listed.length ∧
      sampleStr listed ∉ listed ∧
      (∀ letter ∈ (sampleStr listed).toList, letter = 'x') ∧
      ∀ text : String, (∀ letter ∈ text.toList, letter = 'x') → text ∉ listed →
        (sampleStr listed).length ≤ text.length := by
  refine ⟨?_, ?_⟩
  · intro listed few
    exact ⟨(search_sampleInt few).iff_of_ends, isLeast_sampleInt listed, (sampleInt_spec listed).2.2⟩
  · intro listed
    refine ⟨(search_sampleStr listed).iff_of_ends, length_sampleStr_le_length listed,
      sampleStr_not_mem listed, ?_, fun text only unlisted => length_sampleStr_le only unlisted⟩
    rw [sampleStr_eq]
    exact eq_of_mem_crosses

/-- Repeated and negative integers, and strings of other letters, do not count. -/
theorem samples_found_among_others :
    Search nextInt [0, -3, 2, 0, 1, 9] 0 3 (.ok 3) ∧
      Search nextStr ["xx", "", "y", "x", ""] "" 3 (.ok "xxx") := by
  obtain ⟨ints, strs⟩ := samples_found
  exact ⟨((ints [0, -3, 2, 0, 1, 9] (by decide)).1 3 _).mpr ⟨rfl, rfl⟩,
    ((strs ["xx", "", "y", "x", ""]).1 3 _).mpr ⟨by decide, by decide⟩⟩

end TypedMatch
