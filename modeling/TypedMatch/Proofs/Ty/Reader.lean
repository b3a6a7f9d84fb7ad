import TypedMatch.Proofs.Ty.ByName

/-!
# A reader for types

The reader goes through a text from left to right and follows the way types are written: a primary with its
postfixes, then the other factors of a product, then the other arguments and the result of a function.  It takes
any text and complains of few, for all that matters is what it makes of the text of a type.  How deep it goes is
bounded by `fuel`, and any bound beyond the one that a type needs will do.
-/

set_option autoImplicit false

namespace TypedMatch.Ty

/-! ## Words and signs -/

def takeWord (chars : List Char) : String × List Char :=
  (String.ofList (chars.takeWhile isWordChar), chars.dropWhile isWordChar)

def ofWord (word : String) : Ty String :=
  match BaseTy.ofText? word with
  | some found => .base found
  | none => .data ⟨0, word⟩ []

def ofPostfix (argument : Ty String) (word : String) : Ty String :=
  if word = "list" then .list argument
  else if word = "ref" then .ref argument
  else .data ⟨0, word⟩ [argument]

def modeOf (word : String) : CommandMode :=
  if word = "inline-cmd" then .inline else if word = "block-cmd" then .block else .math

def takeMode : List Char → ArgMode × List Char
  | '?' :: rest => (.optional, rest)
  | rest => (.mandatory, rest)

def takeArrow : List Char → Option ArgMode × List Char
  | ' ' :: '?' :: '-' :: '>' :: ' ' :: rest => (some .optional, rest)
  | ' ' :: '-' :: '>' :: ' ' :: rest => (some .mandatory, rest)
  | rest => (none, rest)

def afterField : List Char → List Char
  | ';' :: rest => rest
  | rest => rest

def afterArg : List Char → List Char
  | ';' :: ' ' :: rest => rest
  | rest => rest

def readPostfixes (type : Ty String) (chars : List Char) : Ty String × List Char :=
  match chars with
  | ' ' :: c :: rest =>
      if isWordChar c && c != '-' then
        readPostfixes (ofPostfix type (String.ofList (c :: rest.takeWhile isWordChar)))
          (rest.dropWhile isWordChar)
      else (type, ' ' :: c :: rest)
  | rest => (type, rest)
termination_by chars.length
decreasing_by
  have shorter := (List.dropWhile_sublist (l := rest) isWordChar).length_le
  simp only [List.length_cons]
  omega

/-! ## The reader -/

mutual

def readWhole : Nat → List (Ty String) → List Char → Option (Ty String × List Char)
  | 0, _, _ => none
  | fuel + 1, optional, chars => do
      let (last, rest) ← readOperand fuel chars
      match takeArrow rest with
      | (some .optional, rest) => readWhole fuel (optional ++ [last]) rest
      | (some .mandatory, rest) => do
          let (codomain, rest) ← readWhole fuel [] rest
          some (.arrow optional last codomain, rest)
      | (none, rest) => some (last, rest)

def readOperand : Nat → List Char → Option (Ty String × List Char)
  | 0, _ => none
  | fuel + 1, chars => do
      let (first, rest) ← readAtom fuel chars
      let (others, rest) ← readFactors fuel rest
      some (if others.isEmpty then first else .product (first :: others), rest)

def readFactors : Nat → List Char → Option (List (Ty String) × List Char)
  | fuel + 1, ' ' :: '*' :: ' ' :: rest => do
      let (next, rest) ← readAtom fuel rest
      let (others, rest) ← readFactors fuel rest
      some (next :: others, rest)
  | _, rest => some ([], rest)

def readAtom : Nat → List Char → Option (Ty String × List Char)
  | 0, _ => none
  | fuel + 1, chars => do
      let (first, rest) ← readPrimary fuel chars
      some (readPostfixes first rest)

def readPrimary : Nat → List Char → Option (Ty String × List Char)
  | 0, _ => none
  | _ + 1, '\'' :: rest =>
      let (word, rest) := takeWord rest
      some (.var word, rest)
  | fuel + 1, '[' :: rest => do
      let (args, rest) ← readArgs fuel rest
      let (word, rest) := takeWord (rest.drop 1)
      some (.command (modeOf word) args, rest)
  | fuel + 1, '(' :: '|' :: rest => do
      let (fields, rest) ← readFields fuel rest
      some (.record fields, rest)
  | fuel + 1, '(' :: rest => do
      let (first, rest) ← readWhole fuel [] rest
      let (others, rest) ← readMore fuel rest
      if others.isEmpty then some (first, rest.drop 1)
      else
        let (word, rest) := takeWord (rest.drop 2)
        some (.data ⟨0, word⟩ (first :: others), rest)
  | _ + 1, rest =>
      let (word, rest) := takeWord rest
      some (ofWord word, rest)

def readMore : Nat → List Char → Option (List (Ty String) × List Char)
  | fuel + 1, ',' :: ' ' :: rest => do
      let (next, rest) ← readWhole fuel [] rest
      let (others, rest) ← readMore fuel rest
      some (next :: others, rest)
  | _, rest => some ([], rest)

def readFields : Nat → List Char → Option (List (String × Ty String) × List Char)
  | _, ' ' :: '|' :: ')' :: rest => some ([], rest)
  | 0, _ => none
  | fuel + 1, rest => do
      let (label, rest) := takeWord (rest.drop 1)
      let (type, rest) ← readWhole fuel [] (rest.drop 3)
      let (others, rest) ← readFields fuel (afterField rest)
      some ((label, type) :: others, rest)

def readArgs : Nat → List Char → Option (List (ArgMode × Ty String) × List Char)
  | _, ']' :: rest => some ([], rest)
  | 0, _ => none
  | fuel + 1, rest => do
      let (type, rest) ← readWhole fuel [] rest
      let (mode, rest) := takeMode rest
      let (others, rest) ← readArgs fuel (afterArg rest)
      some ((mode, type) :: others, rest)

end

/-! ## Where types begin and end -/

def Opens (chars : List Char) : Prop := ∃ c rest, chars = c :: rest ∧ c ≠ '|' ∧ c ≠ ']'

theorem Opens.append {chars : List Char} (opens : Opens chars) (rest : List Char) :
    Opens (chars ++ rest) := by
  obtain ⟨c, others, rfl, distinct⟩ := opens
  exact ⟨c, others ++ rest, rfl, distinct⟩

theorem opens_parenthesis (rest : List Char) : Opens ('(' :: rest) := ⟨_, _, rfl, by decide, by decide⟩

def Detached (rest : List Char) : Prop := ∀ c ∈ rest.head?, isWordChar c = false

/-- Whether the postfixes of a type in front of a text end where the text begins. -/
structure EndsAtom (rest : List Char) : Prop where
  detached : Detached rest
  postfixes : ∀ type, readPostfixes type rest = (type, rest)

structure EndsOperand (rest : List Char) : Prop extends EndsAtom rest where
  factors : ∀ fuel, readFactors fuel rest = some ([], rest)

structure EndsWhole (rest : List Char) : Prop extends EndsOperand rest where
  arrow : takeArrow rest = (none, rest)

theorem detached_cons {c : Char} (rest : List Char) (isSign : isWordChar c = false) : Detached (c :: rest) := by
  intro d first
  cases first
  exact isSign

theorem endsAtom_space {c : Char} {rest : List Char} (opensNoWord : isWordChar c = false ∨ c = '-') :
    EndsAtom (' ' :: c :: rest) := by
  refine ⟨detached_cons _ rfl, ?_⟩
  intro type
  rw [readPostfixes, if_neg]
  rcases opensNoWord with notWord | hyphen
  · simp [notWord]
  · simp [hyphen]

theorem endsAtom_factor (rest : List Char) : EndsAtom (' ' :: '*' :: rest) := endsAtom_space (.inl rfl)

theorem endsOperand_arrow (rest : List Char) : EndsOperand (' ' :: '-' :: rest) where
  toEndsAtom := endsAtom_space (.inr rfl)
  factors _ := by simp [readFactors]

theorem endsOperand_optional (rest : List Char) : EndsOperand (' ' :: '?' :: rest) where
  toEndsAtom := endsAtom_space (.inl rfl)
  factors _ := by simp [readFactors]

theorem endsWhole_bar (rest : List Char) : EndsWhole (' ' :: '|' :: rest) where
  toEndsAtom := endsAtom_space (.inl rfl)
  factors _ := by simp [readFactors]
  arrow := rfl

theorem endsWhole_nil : EndsWhole [] where
  detached := by
    intro c first
    cases first
  postfixes _ := by simp [readPostfixes]
  factors _ := by simp [readFactors]
  arrow := rfl

theorem endsWhole_cons {c : Char} (rest : List Char) (closes : c ∈ [')', ',', ';', '?', ']']) :
    EndsWhole (c :: rest) := by
  simp only [List.mem_cons, List.not_mem_nil, or_false] at closes
  rcases closes with rfl | rfl | rfl | rfl | rfl <;>
    exact
      { detached := detached_cons _ rfl
        postfixes := fun _ => by simp [readPostfixes]
        factors := fun _ => by simp [readFactors]
        arrow := rfl }

/-! ## Reading words -/

theorem takeWord_append {word : String} (isWord : ∀ c ∈ word.toList, isWordChar c = true)
    {rest : List Char} (detached : Detached rest) : takeWord (word.toList ++ rest) = (word, rest) := by
  have none : rest.takeWhile isWordChar = [] ∧ rest.dropWhile isWordChar = rest := by
    cases rest with
    | nil => exact ⟨rfl, rfl⟩
    | cons c rest =>
        have notWord := detached c rfl
        simp [notWord]
  rw [takeWord, List.takeWhile_append_of_pos isWord, List.dropWhile_append_of_pos isWord, none.1, none.2,
    List.append_nil, String.ofList_toList]

theorem isWordChar_of_isWord {text : String} (word : isWord text = true) :
    ∀ c ∈ text.toList, isWordChar c = true := by
  obtain ⟨c, rest, split, _, first, others⟩ := exists_of_isWord word
  rw [split]
  exact List.forall_mem_cons.mpr ⟨first, others⟩

theorem readPostfixes_word {word : String} (isWord : isWord word = true) {rest : List Char}
    (detached : Detached rest) (type : Ty String) :
    readPostfixes type (' ' :: (word.toList ++ rest)) = readPostfixes (ofPostfix type word) rest := by
  have taken := takeWord_append (isWordChar_of_isWord isWord) detached
  obtain ⟨c, others, split, notHyphen, isFirst, _⟩ := exists_of_isWord isWord
  rw [split, List.cons_append, takeWord, List.takeWhile_cons, List.dropWhile_cons, if_pos isFirst, if_pos isFirst]
    at taken
  obtain ⟨sameWord, sameRest⟩ := Prod.mk.inj taken
  rw [split, List.cons_append, readPostfixes, sameWord, sameRest]
  simp only [isFirst, bne_iff_ne.mpr notHyphen, Bool.and_self, if_true]

theorem readPrimary_word {word : String} (isWord : isWord word = true) {rest : List Char}
    (detached : Detached rest) (fuel : Nat) :
    readPrimary (fuel + 1) (word.toList ++ rest) = some (ofWord word, rest) := by
  have taken := takeWord_append (isWordChar_of_isWord isWord) detached
  obtain ⟨c, others, split, _, isFirst, _⟩ := exists_of_isWord isWord
  rw [split, List.cons_append] at taken
  rw [split, List.cons_append, readPrimary]
  · rw [taken]
  all_goals
    intro _ same
    obtain ⟨rfl, _⟩ := List.cons.inj same
    cases isFirst

end TypedMatch.Ty
