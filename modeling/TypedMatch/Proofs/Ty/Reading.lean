import TypedMatch.Proofs.Ty.Reader

/-!
# Reading types back

The text of a legible type can be read from left to right, and what is read is the type by name, with the names
of its variables for variables.  So a text says all about a legible type but which variables and which declared
types its names belong to.
-/

set_option autoImplicit false

namespace TypedMatch.Ty

section Reads

variable {Var : Type} (word : Var → String)

def chars (place : Place) (type : Ty Var) : List Char :=
  (type.text (fun v => "'" ++ word v) place).toList

def spelled (type : Ty Var) : Ty String := type.byName.map word

/-- Whether the text of a type is read back with any fuel from `cost` on, whatever comes after it that leaves
the type ended. -/
structure Reads (cost : Nat) (type : Ty Var) : Prop where
  opens : ∀ place, Opens (type.chars word place)
  atom : ∀ fuel rest, cost ≤ fuel → Detached rest →
    readAtom fuel (type.chars word .atom ++ rest) = some (readPostfixes (type.spelled word) rest)
  operand : ∀ fuel rest, cost ≤ fuel → EndsOperand rest →
    readOperand fuel (type.chars word .operand ++ rest) = some (type.spelled word, rest)
  whole : ∀ fuel rest, cost ≤ fuel → EndsWhole rest →
    readWhole fuel [] (type.chars word .whole ++ rest) = some (type.spelled word, rest)

variable {word} {type : Ty Var} {cost fuel : Nat}

theorem Reads.mono {more : Nat} (reads : type.Reads word cost) (le : cost ≤ more) : type.Reads word more where
  opens := reads.opens
  atom fuel rest enough := reads.atom fuel rest (Nat.le_trans le enough)
  operand fuel rest enough := reads.operand fuel rest (Nat.le_trans le enough)
  whole fuel rest enough := reads.whole fuel rest (Nat.le_trans le enough)

theorem spelledList_eq_map (types : List (Ty Var)) :
    bindList (fun v => .var (word v)) (byNameList types) = types.map (spelled word) := by
  induction types with
  | nil => rfl
  | cons type rest inductionHypothesis =>
      rw [byNameList, bindList, inductionHypothesis]
      rfl

theorem spelledFields_eq_map (fields : List (String × Ty Var)) :
    bindFields (fun v => .var (word v)) (byNameFields fields)
      = fields.map fun field => (field.1, field.2.spelled word) := by
  induction fields with
  | nil => rfl
  | cons field rest inductionHypothesis =>
      rw [byNameFields, bindFields, inductionHypothesis]
      rfl

theorem spelledArgs_eq_map (args : List (ArgMode × Ty Var)) :
    bindArgs (fun v => .var (word v)) (byNameArgs args)
      = args.map fun arg => (arg.1, arg.2.spelled word) := by
  induction args with
  | nil => rfl
  | cons arg rest inductionHypothesis =>
      rw [byNameArgs, bindArgs, inductionHypothesis]
      rfl

/-! ### From the inside out -/

theorem exists_less (enough : cost + 1 ≤ fuel) : ∃ less, cost ≤ less ∧ fuel = less + 1 :=
  ⟨fuel - 1, by omega, by omega⟩

section Steps

variable {chars : List Char} {read : Ty String} {rest : List Char}

theorem readWhole_of_operand (ends : EndsWhole rest) (operand : readOperand fuel chars = some (read, rest)) :
    readWhole (fuel + 1) [] chars = some (read, rest) := by
  simp only [readWhole, operand, Option.bind_eq_bind, Option.bind_some, ends.arrow]

theorem readOperand_of_atom (ends : EndsOperand rest)
    (atom : readAtom fuel chars = some (readPostfixes read rest)) :
    readOperand (fuel + 1) chars = some (read, rest) := by
  simp only [readOperand, atom, Option.bind_eq_bind, Option.bind_some, ends.postfixes, ends.factors,
    List.isEmpty_nil, if_true]

theorem readAtom_of_primary (primary : readPrimary fuel chars = some (read, rest)) :
    readAtom (fuel + 1) chars = some (readPostfixes read rest) := by
  simp only [readAtom, primary, Option.bind_eq_bind, Option.bind_some]

end Steps

theorem Reads.of_atom (alike : ∀ place, type.chars word place = type.chars word .atom)
    (opens : Opens (type.chars word .atom))
    (atom : ∀ fuel rest, cost ≤ fuel → Detached rest →
      readAtom fuel (type.chars word .atom ++ rest) = some (readPostfixes (type.spelled word) rest)) :
    type.Reads word (cost + 2) where
  opens place := by rwa [alike place]
  atom fuel rest enough := atom fuel rest (by omega)
  operand := by
    intro fuel rest enough ends
    obtain ⟨less, fits, rfl⟩ := exists_less enough
    rw [alike .operand]
    exact readOperand_of_atom ends (atom less rest (by omega) ends.detached)
  whole := by
    intro fuel rest enough ends
    obtain ⟨less, fits, rfl⟩ := exists_less enough
    obtain ⟨least, fitsAtom, rfl⟩ := exists_less fits
    rw [alike .whole]
    exact readWhole_of_operand ends
      (readOperand_of_atom ends.toEndsOperand (atom least rest fitsAtom ends.detached))

theorem Reads.of_primary (alike : ∀ place, type.chars word place = type.chars word .atom)
    (opens : Opens (type.chars word .atom))
    (primary : ∀ fuel rest, cost ≤ fuel → Detached rest →
      readPrimary (fuel + 1) (type.chars word .atom ++ rest) = some (type.spelled word, rest)) :
    type.Reads word (cost + 4) := by
  apply Reads.of_atom alike opens
  intro fuel rest enough detached
  obtain ⟨less, fits, rfl⟩ := exists_less enough
  obtain ⟨least, fitsPrimary, rfl⟩ := exists_less fits
  exact readAtom_of_primary (primary least rest fitsPrimary detached)

/-! ### Words and postfixes -/

theorem opens_of_isWord {name : String} (named : isWord name = true) : Opens name.toList := by
  obtain ⟨c, rest, split, _, isFirst, _⟩ := exists_of_isWord named
  refine ⟨c, rest, split, ?_, ?_⟩ <;> (rintro rfl; cases isFirst)

theorem Reads.of_word {name : String} (named : isWord name = true)
    (written : ∀ place, type.chars word place = name.toList)
    (stands : type.spelled word = ofWord name) : type.Reads word 4 := by
  apply Reads.of_primary (fun place => by rw [written, written])
  · rw [written]
    exact opens_of_isWord named
  · intro fuel rest _ detached
    rw [written, stands]
    exact readPrimary_word named detached fuel

theorem Reads.of_argument {argument : Ty Var} (reads : argument.Reads word cost) (name : String)
    (named : isWord name = true)
    (written : ∀ place, type.chars word place = argument.chars word .atom ++ ' ' :: name.toList)
    (stands : type.spelled word = ofPostfix (argument.spelled word) name) : type.Reads word (cost + 2) := by
  apply Reads.of_atom (fun place => by rw [written, written])
  · rw [written]
    exact (reads.opens .atom).append _
  · intro fuel rest enough detached
    rw [written, List.append_assoc, List.cons_append, reads.atom fuel _ enough (detached_cons _ rfl), stands,
      readPostfixes_word named detached]

theorem Reads.base (base : BaseTy) : (Ty.base base : Ty Var).Reads word 4 := by
  refine .of_word base.isWord_text (fun _ => rfl) ?_
  rw [ofWord, base.ofText?_text]
  rfl

theorem Reads.var {v : Var} (named : ∀ c ∈ (word v).toList, isWordChar c = true) :
    (Ty.var v).Reads word 4 := by
  have written (place : Place) : (Ty.var v).chars word place = '\'' :: (word v).toList := by
    simp [chars, text]
  apply Reads.of_primary (fun place => by rw [written, written])
  · rw [written]
    exact ⟨_, _, rfl, by decide, by decide⟩
  · intro fuel rest _ detached
    rw [written, List.cons_append, readPrimary, takeWord_append named detached]
    rfl

theorem Reads.list {element : Ty Var} (reads : element.Reads word cost) :
    (Ty.list element).Reads word (cost + 2) :=
  reads.of_argument "list" (by decide) (fun _ => by simp [chars, text]) rfl

theorem Reads.ref {content : Ty Var} (reads : content.Reads word cost) :
    (Ty.ref content).Reads word (cost + 2) :=
  reads.of_argument "ref" (by decide) (fun _ => by simp [chars, text]) rfl

/-! ### Parentheses -/

theorem readAtom_parenthesized {written : List Char} (opens : Opens written) {read : Ty String}
    (rest : List Char)
    (whole : ∀ fuel, cost ≤ fuel →
      readWhole fuel [] (written ++ ')' :: rest) = some (read, ')' :: rest)) (enough : cost + 2 ≤ fuel) :
    readAtom fuel ('(' :: (written ++ ')' :: rest)) = some (readPostfixes read rest) := by
  obtain ⟨less, fits, rfl⟩ := exists_less enough
  obtain ⟨least, fitsWhole, rfl⟩ := exists_less fits
  have inner := whole least fitsWhole
  obtain ⟨c, others, rfl, notBar, _⟩ := opens
  apply readAtom_of_primary
  rw [List.cons_append] at inner ⊢
  rw [readPrimary]
  · simp [inner, readMore]
  · intro _ same
    exact notBar (List.cons.inj same).1

/-! ### Functions -/

theorem readWhole_function {domain codomain : Ty Var} (domainReads : domain.Reads word cost)
    (codomainReads : codomain.Reads word cost) {rest : List Char} (ends : EndsWhole rest)
    (optional : List (Ty Var)) (reads : ∀ type ∈ optional, type.Reads word cost) (before : List (Ty String))
    {fuel : Nat} (enough : cost + optional.length + 1 ≤ fuel) :
    readWhole fuel before ((optionalText (fun v => "'" ++ word v) optional).toList
        ++ (domain.chars word .operand ++ (" -> ".toList ++ (codomain.chars word .whole ++ rest))))
      = some (.arrow (before ++ optional.map (spelled word)) (domain.spelled word) (codomain.spelled word),
          rest) := by
  -- An optional argument goes to those before it, and what is left is read with less fuel.
  induction optional generalizing before fuel with
  | nil =>
      obtain ⟨less, fits, rfl⟩ := exists_less enough
      let result := codomain.chars word .whole ++ rest
      have operand := domainReads.operand less (" -> ".toList ++ result) fits (endsOperand_arrow _)
      have whole := codomainReads.whole less rest fits ends
      have arrow : takeArrow (" -> ".toList ++ result) = (some .mandatory, result) := rfl
      rw [optionalText, String.toList_empty, List.nil_append, readWhole, operand, List.map_nil, List.append_nil]
      simp only [Option.bind_eq_bind, Option.bind_some, arrow, result, whole]
  | cons type others inductionHypothesis =>
      obtain ⟨typeReads, othersRead⟩ := List.forall_mem_cons.mp reads
      obtain ⟨less, fits, rfl⟩ := exists_less enough
      let more := (optionalText (fun v => "'" ++ word v) others).toList
        ++ (domain.chars word .operand ++ (" -> ".toList ++ (codomain.chars word .whole ++ rest)))
      have operand := typeReads.operand less (" ?-> ".toList ++ more) (Nat.le_of_add_right_le fits)
        (endsOperand_optional _)
      have arrow : takeArrow (" ?-> ".toList ++ more) = (some .optional, more) := rfl
      have further := inductionHypothesis othersRead (before ++ [type.spelled word]) fits
      have arranged : (optionalText (fun v => "'" ++ word v) (type :: others)).toList
          ++ (domain.chars word .operand ++ (" -> ".toList ++ (codomain.chars word .whole ++ rest)))
          = type.chars word .operand ++ (" ?-> ".toList ++ more) := by
        simp [optionalText, chars, more]
      rw [arranged, readWhole, operand]
      simp only [Option.bind_eq_bind, Option.bind_some, arrow]
      rw [further, List.map_cons, List.append_assoc, List.singleton_append]

theorem Reads.arrow {optional : List (Ty Var)} {domain codomain : Ty Var}
    (optionalRead : ∀ type ∈ optional, type.Reads word cost) (domainReads : domain.Reads word cost)
    (codomainReads : codomain.Reads word cost) :
    (Ty.arrow optional domain codomain).Reads word (cost + optional.length + 4) := by
  let type : Ty Var := .arrow optional domain codomain
  let written := type.chars word .whole
  have atomWritten : type.chars word .atom = '(' :: (written ++ [')']) := by
    simp [type, written, chars, text, parenthesized]
  have operandWritten : type.chars word .operand = '(' :: (written ++ [')']) := by
    simp [type, written, chars, text, parenthesized]
  have split : written = (optionalText (fun v => "'" ++ word v) optional).toList
      ++ (domain.chars word .operand ++ (" -> ".toList ++ codomain.chars word .whole)) := by
    simp [type, written, chars, text, parenthesized]
  have stands : type.spelled word = .arrow (optional.map (spelled word)) (domain.spelled word)
      (codomain.spelled word) := by
    rw [← spelledList_eq_map]
    rfl
  have opens : Opens written := by
    rw [split]
    cases optional with
    | nil => exact (domainReads.opens .operand).append _
    | cons first others =>
        have firstOpens := (optionalRead first (.head _)).opens .operand
        rw [optionalText, String.toList_append, String.toList_append]
        exact ((firstOpens.append _).append _).append _
  have whole (fuel : Nat) (rest : List Char) (enough : cost + optional.length + 1 ≤ fuel)
      (ends : EndsWhole rest) : readWhole fuel [] (written ++ rest) = some (type.spelled word, rest) := by
    have read := readWhole_function domainReads codomainReads ends optional optionalRead [] enough
    rw [split, stands]
    simpa only [List.append_assoc, List.nil_append] using read
  have atom (fuel : Nat) (rest : List Char) (enough : cost + optional.length + 3 ≤ fuel) :
      readAtom fuel ('(' :: (written ++ [')']) ++ rest) = some (readPostfixes (type.spelled word) rest) := by
    rw [List.cons_append, List.append_assoc]
    apply readAtom_parenthesized opens rest _ enough
    intro fuel fits
    exact whole fuel _ fits (endsWhole_cons rest (by decide))
  refine ⟨?_, ?_, ?_, ?_⟩
  · intro place
    cases place with
    | whole => exact opens
    | operand =>
        rw [operandWritten]
        exact opens_parenthesis _
    | atom =>
        rw [atomWritten]
        exact opens_parenthesis _
  · intro fuel rest enough _
    rw [atomWritten]
    exact atom fuel rest (by omega)
  · intro fuel rest enough ends
    obtain ⟨less, fits, rfl⟩ := exists_less enough
    rw [operandWritten]
    exact readOperand_of_atom ends (atom less rest fits)
  · intro fuel rest enough ends
    exact whole fuel rest (by omega) ends

/-! ### Products -/

def factorsChars (word : Var → String) (components : List (Ty Var)) : List Char :=
  components.flatMap fun type => ' ' :: '*' :: ' ' :: type.chars word .atom

theorem productText_cons (first : Ty Var) (others : List (Ty Var)) :
    (productText (fun v => "'" ++ word v) (first :: others)).toList
      = first.chars word .atom ++ factorsChars word others := by
  induction others generalizing first with
  | nil => simp [productText, factorsChars, chars]
  | cons next others inductionHypothesis =>
      have further := inductionHypothesis next
      rw [productText, String.toList_append, String.toList_append, further]
      · simp [factorsChars, chars]
      · intro isNil
        cases isNil

theorem readFactors_text {rest : List Char} (ends : EndsOperand rest) (components : List (Ty Var))
    (reads : ∀ type ∈ components, type.Reads word cost) (enough : cost + components.length ≤ fuel) :
    readFactors fuel (factorsChars word components ++ rest)
      = some (components.map (spelled word), rest) := by
  induction components generalizing fuel with
  | nil => exact ends.factors fuel
  | cons type others inductionHypothesis =>
      obtain ⟨typeReads, othersRead⟩ := List.forall_mem_cons.mp reads
      obtain ⟨less, fits, rfl⟩ := exists_less enough
      -- Another factor ends the postfixes of this one as well as the end of the product does.
      have ended : EndsAtom (factorsChars word others ++ rest) := by
        cases others with
        | nil => exact ends.toEndsAtom
        | cons next others => exact endsAtom_factor _
      have atom := typeReads.atom less _ (Nat.le_of_add_right_le fits) ended.detached
      have arranged : factorsChars word (type :: others) ++ rest
          = ' ' :: '*' :: ' ' :: (type.chars word .atom ++ (factorsChars word others ++ rest)) := by
        simp [factorsChars]
      rw [arranged, readFactors, atom, ended.postfixes]
      simp only [Option.bind_eq_bind, Option.bind_some, inductionHypothesis othersRead fits, List.map_cons]

theorem Reads.product {first second : Ty Var} {others : List (Ty Var)}
    (reads : ∀ type ∈ first :: second :: others, type.Reads word cost) :
    (Ty.product (first :: second :: others)).Reads word (cost + others.length + 5) := by
  let type : Ty Var := .product (first :: second :: others)
  let written := type.chars word .whole
  obtain ⟨firstReads, othersRead⟩ := List.forall_mem_cons.mp reads
  have split : written = first.chars word .atom ++ factorsChars word (second :: others) :=
    productText_cons first (second :: others)
  have atomWritten : type.chars word .atom = '(' :: (written ++ [')']) := by
    simp [type, written, chars, text, parenthesized]
  have stands : type.spelled word
      = .product (first.spelled word :: (second :: others).map (spelled word)) := by
    rw [← List.map_cons, ← spelledList_eq_map]
    rfl
  have opens : Opens written := by
    rw [split]
    exact (firstReads.opens .atom).append _
  have operand (fuel : Nat) (rest : List Char) (enough : cost + others.length + 2 ≤ fuel)
      (ends : EndsOperand rest) : readOperand fuel (written ++ rest) = some (type.spelled word, rest) := by
    obtain ⟨less, fits, rfl⟩ := exists_less enough
    have ended : EndsAtom (factorsChars word (second :: others) ++ rest) := endsAtom_factor _
    have atom := firstReads.atom less _ (by omega) ended.detached
    have factors := readFactors_text ends _ othersRead fits
    rw [split, List.append_assoc, readOperand, atom, ended.postfixes, stands]
    simp only [Option.bind_eq_bind, Option.bind_some, factors]
    rfl
  have whole (fuel : Nat) (rest : List Char) (enough : cost + others.length + 3 ≤ fuel)
      (ends : EndsWhole rest) : readWhole fuel [] (written ++ rest) = some (type.spelled word, rest) := by
    obtain ⟨less, fits, rfl⟩ := exists_less enough
    exact readWhole_of_operand ends (operand less rest fits ends.toEndsOperand)
  refine ⟨?_, ?_, ?_, ?_⟩
  · intro place
    cases place with
    | whole => exact opens
    | operand => exact opens
    | atom =>
        rw [atomWritten]
        exact opens_parenthesis _
  · intro fuel rest enough _
    rw [atomWritten, List.cons_append, List.append_assoc]
    apply readAtom_parenthesized opens rest _ enough
    intro fuel fits
    exact whole fuel _ fits (endsWhole_cons rest (by decide))
  · intro fuel rest enough ends
    exact operand fuel rest (by omega) ends
  · intro fuel rest enough ends
    exact whole fuel rest (by omega) ends

/-! ### Declared types -/

theorem readMore_text (rest : List Char) (types : List (Ty Var))
    (reads : ∀ type ∈ types, type.Reads word cost) (enough : cost + types.length ≤ fuel) :
    readMore fuel ((moreArgsText (fun v => "'" ++ word v) types).toList ++ ')' :: rest)
      = some (types.map (spelled word), ')' :: rest) := by
  induction types generalizing fuel with
  | nil => simp [moreArgsText, readMore]
  | cons type others inductionHypothesis =>
      obtain ⟨typeReads, othersRead⟩ := List.forall_mem_cons.mp reads
      obtain ⟨less, fits, rfl⟩ := exists_less enough
      let more := (moreArgsText (fun v => "'" ++ word v) others).toList ++ ')' :: rest
      have ended : EndsWhole more := by
        cases others with
        | nil =>
            rw [show more = ')' :: rest by simp [more, moreArgsText]]
            exact endsWhole_cons _ (by decide)
        | cons next others =>
            simp only [more, moreArgsText, String.toList_append]
            exact endsWhole_cons _ (by decide)
      have whole := typeReads.whole less more (Nat.le_of_add_right_le fits) ended
      have arranged : (moreArgsText (fun v => "'" ++ word v) (type :: others)).toList ++ ')' :: rest
          = ',' :: ' ' :: (type.chars word .whole ++ more) := by
        simp [moreArgsText, chars, more]
      rw [arranged, readMore, whole]
      simp only [Option.bind_eq_bind, Option.bind_some, more, inductionHypothesis othersRead fits, List.map_cons]

theorem Reads.of_several {name : String} (named : isWord name = true) {first second : Ty Var}
    {others : List (Ty Var)} (reads : ∀ arg ∈ first :: second :: others, arg.Reads word cost)
    (written : ∀ place, type.chars word place
      = '(' :: (first.chars word .whole
        ++ ((moreArgsText (fun v => "'" ++ word v) (second :: others)).toList ++ ')' :: ' ' :: name.toList)))
    (stands : type.spelled word
      = .data ⟨0, name⟩ (first.spelled word :: (second :: others).map (spelled word))) :
    type.Reads word (cost + others.length + 5) := by
  obtain ⟨firstReads, othersRead⟩ := List.forall_mem_cons.mp reads
  apply Reads.of_primary (fun place => by rw [written, written])
  · rw [written]
    exact opens_parenthesis _
  · intro fuel rest enough detached
    have more := readMore_text (' ' :: (name.toList ++ rest)) (second :: others) othersRead enough
    let separated := (moreArgsText (fun v => "'" ++ word v) (second :: others)).toList
      ++ ')' :: ' ' :: (name.toList ++ rest)
    have ended : EndsWhole separated := by
      simp only [separated, moreArgsText, String.toList_append]
      exact endsWhole_cons _ (by decide)
    have whole := firstReads.whole fuel separated (by omega) ended
    obtain ⟨c, opening, split, notBar, _⟩ := firstReads.opens .whole
    have arranged : type.chars word .atom ++ rest = '(' :: (first.chars word .whole ++ separated) := by
      rw [written]
      simp [separated]
    rw [arranged, stands]
    rw [split, List.cons_append] at whole ⊢
    rw [readPrimary, whole]
    · simp only [Option.bind_eq_bind, Option.bind_some, separated, more, List.map_cons, List.isEmpty_cons,
        Bool.false_eq_true, if_false, List.drop_succ_cons, List.drop_zero,
        takeWord_append (isWordChar_of_isWord named) detached]
    · intro _ same
      exact notBar (List.cons.inj same).1

theorem Reads.of_name {name : String} (named : isTypeName name = true) {args : List (Ty Var)}
    (reads : ∀ arg ∈ args, arg.Reads word cost)
    (written : ∀ place, type.chars word place
      = (argsText (fun v => "'" ++ word v) args).toList ++ name.toList)
    (stands : type.spelled word = .data ⟨0, name⟩ (args.map (spelled word))) :
    type.Reads word (cost + args.length + 4) := by
  have isWord := isWord_of_isTypeName named
  simp only [isTypeName, Bool.and_eq_true, Option.isNone_iff_eq_none, decide_eq_true_eq, List.mem_cons,
    not_or] at named
  obtain ⟨⟨_, noBase⟩, notList, notRef, _⟩ := named
  cases args with
  | nil =>
      apply (Reads.of_word isWord written ?_).mono (Nat.le_add_left ..)
      rw [stands, ofWord, noBase]
      rfl
  | cons first others =>
      cases others with
      | nil =>
          apply ((reads first (.head _)).of_argument name isWord ?_ ?_).mono (by simp only [List.length_cons]; omega)
          · intro place
            rw [written]
            simp [argsText, chars]
          · rw [stands, ofPostfix, if_neg notList, if_neg notRef]
            rfl
      | cons second others =>
          apply (Reads.of_several isWord reads ?_ stands).mono (by simp only [List.length_cons]; omega)
          intro place
          rw [written]
          simp [argsText, chars]

theorem Reads.data {con : TyCon} {args : List (Ty Var)} (named : isTypeName con.name = true)
    (reads : ∀ arg ∈ args, arg.Reads word cost) : (Ty.data con args).Reads word (cost + args.length + 4) := by
  apply Reads.of_name named reads (fun _ => by simp [chars, text])
  rw [← spelledList_eq_map]
  rfl

theorem Reads.synonym {con : TyCon} {args : List (Ty Var)} {expansion : Ty Var}
    (named : isTypeName con.name = true) (reads : ∀ arg ∈ args, arg.Reads word cost) :
    (Ty.synonym con args expansion).Reads word (cost + args.length + 4) := by
  apply Reads.of_name named reads (fun _ => by simp [chars, text])
  rw [← spelledList_eq_map]
  rfl

/-! ### Records -/

theorem fieldsText_cons (label : String) (type : Ty Var) (others : List (String × Ty Var)) (rest : List Char) :
    ∃ tail, EndsWhole tail ∧
      afterField tail
        = (fieldsText (fun v => "'" ++ word v) others).toList ++ ' ' :: '|' :: ')' :: rest ∧
      (fieldsText (fun v => "'" ++ word v) ((label, type) :: others)).toList ++ ' ' :: '|' :: ')' :: rest
        = ' ' :: (label.toList ++ (' ' :: ':' :: ' ' :: (type.chars word .whole ++ tail))) := by
  cases others with
  | nil =>
      refine ⟨' ' :: '|' :: ')' :: rest, endsWhole_bar _, ?_, ?_⟩
      · simp [afterField, fieldsText]
      · simp [fieldsText, chars]
  | cons next others =>
      refine ⟨';' :: ((fieldsText (fun v => "'" ++ word v) (next :: others)).toList
        ++ ' ' :: '|' :: ')' :: rest), endsWhole_cons _ (by decide), rfl, ?_⟩
      simp [fieldsText, chars]

theorem readFields_text (rest : List Char) (fields : List (String × Ty Var))
    (named : ∀ field ∈ fields, isWord field.1 = true) (reads : ∀ field ∈ fields, field.2.Reads word cost)
    (enough : cost + fields.length ≤ fuel) :
    readFields fuel ((fieldsText (fun v => "'" ++ word v) fields).toList ++ ' ' :: '|' :: ')' :: rest)
      = some (fields.map fun field => (field.1, field.2.spelled word), rest) := by
  induction fields generalizing fuel with
  | nil => simp [fieldsText, readFields]
  | cons field others inductionHypothesis =>
      obtain ⟨label, type⟩ := field
      obtain ⟨labelNamed, othersNamed⟩ := List.forall_mem_cons.mp named
      obtain ⟨typeReads, othersRead⟩ := List.forall_mem_cons.mp reads
      obtain ⟨less, fits, rfl⟩ := exists_less enough
      obtain ⟨tail, ended, after, arranged⟩ := fieldsText_cons label type others rest
      have whole := typeReads.whole less tail (Nat.le_of_add_right_le fits) ended
      have spaced : Detached (' ' :: ':' :: ' ' :: (type.chars word .whole ++ tail)) := detached_cons _ rfl
      have taken := takeWord_append (isWordChar_of_isWord labelNamed) spaced
      have further := inductionHypothesis othersNamed othersRead fits
      obtain ⟨c, opening, split, _, isFirst, _⟩ := exists_of_isWord labelNamed
      rw [arranged]
      rw [split, List.cons_append] at taken ⊢
      rw [readFields]
      -- The label keeps the text apart from the sign that closes a record.
      · simp only [List.drop_succ_cons, List.drop_zero, taken, Option.bind_eq_bind, whole, Option.bind_some,
          after, further, List.map_cons]
      · intro _ same
        obtain ⟨rfl, _⟩ := List.cons.inj (List.cons.inj same).2
        cases isFirst

theorem Reads.record {fields : List (String × Ty Var)} (named : ∀ field ∈ fields, isWord field.1 = true)
    (reads : ∀ field ∈ fields, field.2.Reads word cost) :
    (Ty.record fields).Reads word (cost + fields.length + 4) := by
  let inner := (fieldsText (fun v => "'" ++ word v) fields).toList
  have written (place : Place) : (Ty.record fields).chars word place
      = '(' :: '|' :: (inner ++ [' ', '|', ')']) := by
    simp [chars, text, inner]
  have stands : (Ty.record fields).spelled word
      = .record (fields.map fun field => (field.1, field.2.spelled word)) := by
    rw [← spelledFields_eq_map]
    rfl
  apply Reads.of_primary (fun place => by rw [written, written])
  · rw [written]
    exact opens_parenthesis _
  · intro fuel rest enough _
    have read := readFields_text rest fields named reads enough
    have arranged : (Ty.record fields).chars word .atom ++ rest
        = '(' :: '|' :: (inner ++ ' ' :: '|' :: ')' :: rest) := by
      rw [written]
      simp
    rw [arranged, stands, readPrimary]
    simp only [inner, read, Option.bind_eq_bind, Option.bind_some]

/-! ### Commands -/

/-- An argument is written before a text that leaves its type and its mode ended, and from which the other
arguments follow. -/
theorem commandText_cons (mode : ArgMode) (type : Ty Var) (others : List (ArgMode × Ty Var))
    (rest : List Char) :
    ∃ tail, EndsWhole (mode.text.toList ++ tail) ∧ takeMode (mode.text.toList ++ tail) = (mode, tail) ∧
      afterArg tail = (commandText (fun v => "'" ++ word v) others).toList ++ ']' :: rest ∧
      (commandText (fun v => "'" ++ word v) ((mode, type) :: others)).toList ++ ']' :: rest
        = type.chars word .whole ++ (mode.text.toList ++ tail) := by
  have closed (c : Char) (later : List Char) (isSign : c ∈ [';', ']']) :
      EndsWhole (mode.text.toList ++ c :: later) ∧
        takeMode (mode.text.toList ++ c :: later) = (mode, c :: later) := by
    simp only [List.mem_cons, List.not_mem_nil, or_false] at isSign
    cases mode with
    | optional => exact ⟨endsWhole_cons _ (by decide), rfl⟩
    | mandatory =>
        rcases isSign with rfl | rfl
        · exact ⟨endsWhole_cons _ (by decide), rfl⟩
        · exact ⟨endsWhole_cons _ (by decide), rfl⟩
  cases others with
  | nil =>
      obtain ⟨ended, taken⟩ := closed ']' rest (by decide)
      refine ⟨']' :: rest, ended, taken, ?_, ?_⟩
      · simp [afterArg, commandText]
      · simp [commandText, chars]
  | cons next others =>
      let more := (commandText (fun v => "'" ++ word v) (next :: others)).toList ++ ']' :: rest
      obtain ⟨ended, taken⟩ := closed ';' (' ' :: more) (by decide)
      refine ⟨';' :: ' ' :: more, ended, taken, rfl, ?_⟩
      simp [commandText, chars, more]

theorem readArgs_text (rest : List Char) (args : List (ArgMode × Ty Var))
    (reads : ∀ arg ∈ args, arg.2.Reads word cost) (enough : cost + args.length ≤ fuel) :
    readArgs fuel ((commandText (fun v => "'" ++ word v) args).toList ++ ']' :: rest)
      = some (args.map fun arg => (arg.1, arg.2.spelled word), rest) := by
  induction args generalizing fuel with
  | nil => simp [commandText, readArgs]
  | cons arg others inductionHypothesis =>
      obtain ⟨mode, type⟩ := arg
      obtain ⟨typeReads, othersRead⟩ := List.forall_mem_cons.mp reads
      obtain ⟨less, fits, rfl⟩ := exists_less enough
      obtain ⟨tail, ended, taken, after, arranged⟩ := commandText_cons mode type others rest
      have whole := typeReads.whole less _ (Nat.le_of_add_right_le fits) ended
      have further := inductionHypothesis othersRead fits
      obtain ⟨c, opening, split, _, notBracket⟩ := typeReads.opens .whole
      rw [arranged]
      rw [split, List.cons_append] at whole ⊢
      rw [readArgs, whole]
      · simp only [Option.bind_eq_bind, Option.bind_some, taken, after, further, List.map_cons]
      · intro _ same
        exact notBracket (List.cons.inj same).1

theorem Reads.command {mode : CommandMode} {args : List (ArgMode × Ty Var)}
    (reads : ∀ arg ∈ args, arg.2.Reads word cost) :
    (Ty.command mode args).Reads word (cost + args.length + 4) := by
  let inner := (commandText (fun v => "'" ++ word v) args).toList
  have written (place : Place) : (Ty.command mode args).chars word place
      = '[' :: (inner ++ ']' :: ' ' :: mode.text.toList) := by
    simp [chars, text, inner]
  have stands : (Ty.command mode args).spelled word
      = .command mode (args.map fun arg => (arg.1, arg.2.spelled word)) := by
    rw [← spelledArgs_eq_map]
    rfl
  have isWord : isWord mode.text = true := by cases mode <;> rfl
  have back : modeOf mode.text = mode := by cases mode <;> rfl
  apply Reads.of_primary (fun place => by rw [written, written])
  · rw [written]
    exact ⟨_, _, rfl, by decide, by decide⟩
  · intro fuel rest enough detached
    have read := readArgs_text (' ' :: (mode.text.toList ++ rest)) args reads enough
    have taken := takeWord_append (isWordChar_of_isWord isWord) detached
    have arranged : (Ty.command mode args).chars word .atom ++ rest
        = '[' :: (inner ++ ']' :: ' ' :: (mode.text.toList ++ rest)) := by
      rw [written]
      simp
    rw [arranged, stands, readPrimary]
    simp only [inner, read, Option.bind_eq_bind, Option.bind_some, List.drop_succ_cons, List.drop_zero, taken,
      back]

/-! ### All types -/

mutual

/-- The text of a legible type is read back. -/
theorem reads_of_legible (named : ∀ v, ∀ c ∈ (word v).toList, isWordChar c = true) :
    ∀ type : Ty Var, type.legible = true → ∃ cost, type.Reads word cost
  | .base b, _ => ⟨_, .base b⟩
  | .var v, _ => ⟨_, .var (named v)⟩
  | .arrow optional domain codomain, legible => by
      simp only [Ty.legible, Bool.and_eq_true] at legible
      obtain ⟨⟨optionalLegible, domainLegible⟩, codomainLegible⟩ := legible
      obtain ⟨before, optionalRead⟩ := readsList_of_legible named optional optionalLegible
      obtain ⟨cost, domainReads⟩ := reads_of_legible named domain domainLegible
      obtain ⟨after, codomainReads⟩ := reads_of_legible named codomain codomainLegible
      let together := before + cost + after
      have optionalTogether : ∀ type ∈ optional, type.Reads word together :=
        fun type among => (optionalRead type among).mono (by omega)
      exact ⟨_, .arrow optionalTogether (domainReads.mono (by omega)) (codomainReads.mono (by omega))⟩
  | .list element, legible => by
      obtain ⟨cost, reads⟩ := reads_of_legible named element legible
      exact ⟨_, reads.list⟩
  | .ref content, legible => by
      obtain ⟨cost, reads⟩ := reads_of_legible named content legible
      exact ⟨_, reads.ref⟩
  | .product components, legible => by
      simp only [Ty.legible, Bool.and_eq_true, decide_eq_true_eq] at legible
      obtain ⟨cost, reads⟩ := readsList_of_legible named components legible.2
      rcases components with _ | ⟨first, _ | ⟨second, others⟩⟩
      · exact absurd legible.1 (by simp)
      · exact absurd legible.1 (by simp)
      · exact ⟨_, .product reads⟩
  | .data con args, legible => by
      simp only [Ty.legible, Bool.and_eq_true] at legible
      obtain ⟨cost, reads⟩ := readsList_of_legible named args legible.2
      exact ⟨_, .data legible.1 reads⟩
  | .synonym con args _, legible => by
      simp only [Ty.legible, Bool.and_eq_true] at legible
      obtain ⟨cost, reads⟩ := readsList_of_legible named args legible.2
      exact ⟨_, .synonym legible.1 reads⟩
  | .record fields, legible => by
      obtain ⟨labels, cost, reads⟩ := readsFields_of_legible named fields legible
      exact ⟨_, .record labels reads⟩
  | .command _ args, legible => by
      obtain ⟨cost, reads⟩ := readsArgs_of_legible named args legible
      exact ⟨_, .command reads⟩

theorem readsList_of_legible (named : ∀ v, ∀ c ∈ (word v).toList, isWordChar c = true) :
    ∀ types : List (Ty Var), legibleList types = true → ∃ cost, ∀ type ∈ types, type.Reads word cost
  | [], _ => ⟨0, List.forall_mem_nil _⟩
  | type :: rest, legible => by
      simp only [legibleList, Bool.and_eq_true] at legible
      obtain ⟨cost, reads⟩ := reads_of_legible named type legible.1
      obtain ⟨more, restRead⟩ := readsList_of_legible named rest legible.2
      refine ⟨cost + more, List.forall_mem_cons.mpr ⟨reads.mono (by omega), ?_⟩⟩
      exact fun other among => (restRead other among).mono (by omega)

theorem readsFields_of_legible (named : ∀ v, ∀ c ∈ (word v).toList, isWordChar c = true) :
    ∀ fields : List (String × Ty Var), legibleFields fields = true →
      (∀ field ∈ fields, isWord field.1 = true) ∧ ∃ cost, ∀ field ∈ fields, field.2.Reads word cost
  | [], _ => ⟨List.forall_mem_nil _, 0, List.forall_mem_nil _⟩
  | (label, type) :: rest, legible => by
      simp only [legibleFields, Bool.and_eq_true] at legible
      obtain ⟨cost, reads⟩ := reads_of_legible named type legible.1.2
      obtain ⟨labels, more, restRead⟩ := readsFields_of_legible named rest legible.2
      refine ⟨List.forall_mem_cons.mpr ⟨legible.1.1, labels⟩, cost + more,
        List.forall_mem_cons.mpr ⟨reads.mono (by omega), ?_⟩⟩
      exact fun other among => (restRead other among).mono (by omega)

theorem readsArgs_of_legible (named : ∀ v, ∀ c ∈ (word v).toList, isWordChar c = true) :
    ∀ args : List (ArgMode × Ty Var), legibleArgs args = true →
      ∃ cost, ∀ arg ∈ args, arg.2.Reads word cost
  | [], _ => ⟨0, List.forall_mem_nil _⟩
  | (_, type) :: rest, legible => by
      simp only [legibleArgs, Bool.and_eq_true] at legible
      obtain ⟨cost, reads⟩ := reads_of_legible named type legible.1
      obtain ⟨more, restRead⟩ := readsArgs_of_legible named rest legible.2
      refine ⟨cost + more, List.forall_mem_cons.mpr ⟨reads.mono (by omega), ?_⟩⟩
      exact fun other among => (restRead other among).mono (by omega)

end

end Reads

theorem exists_readWhole_text {Var : Type} {word : Var → String}
    (named : ∀ v, ∀ c ∈ (word v).toList, isWordChar c = true) {type : Ty Var} (legible : type.legible = true) :
    ∃ cost, ∀ fuel, cost ≤ fuel →
      readWhole fuel [] (type.text (fun v => "'" ++ word v) .whole).toList
        = some (type.byName.map word, []) := by
  obtain ⟨cost, reads⟩ := reads_of_legible named type legible
  refine ⟨cost, ?_⟩
  intro fuel enough
  have whole := reads.whole fuel [] enough endsWhole_nil
  rwa [List.append_nil] at whole

/-- Legible types have the same text just if they are the same by name, with the names of their variables. -/
theorem text_eq_iff {Var Other : Type} {word : Var → String} {otherWord : Other → String}
    (named : ∀ v, ∀ c ∈ (word v).toList, isWordChar c = true)
    (otherNamed : ∀ v, ∀ c ∈ (otherWord v).toList, isWordChar c = true)
    {type : Ty Var} {other : Ty Other} (legible : type.legible = true) (otherLegible : other.legible = true) :
    type.text (fun v => "'" ++ word v) .whole = other.text (fun v => "'" ++ otherWord v) .whole
      ↔ type.byName.map word = other.byName.map otherWord := by
  constructor
  · intro same
    obtain ⟨cost, reads⟩ := exists_readWhole_text named legible
    obtain ⟨otherCost, otherReads⟩ := exists_readWhole_text otherNamed otherLegible
    have read := reads (cost + otherCost) (by omega)
    have otherRead := otherReads (cost + otherCost) (by omega)
    rw [same, otherRead] at read
    exact (Prod.mk.inj (Option.some.inj read)).1.symm
  · intro same
    have written := congrArg (text (fun name => "'" ++ name) .whole) same
    rwa [text_byName_map, text_byName_map] at written

end TypedMatch.Ty
