import TypedMatch.Coverage.Witness
import TypedMatch.Proofs.Text.Quoted

/-!
# Witnesses can be told apart by their texts

A witness is written without parentheses where it can do without: a cell as the tail of another one, as a
component or as a payload, and a tuple as a payload.  Still the text says which witness it is, provided that
each tuple has two components or more and the name of each constructor begins like one.  The text of a cell
is that of its head, `::` and that of its tail, and whatever is not a cell, or stands in parentheses, is a word, a quoted
text, or a group: a name, which may be missing, and the witnesses between the parentheses behind it.
-/

set_option autoImplicit false

namespace TypedMatch.Witness

/-! ## Legible witnesses -/

def delimiters : List Char := ['(', ')', ',', ' ', '"']

def isWordChar (character : Char) : Bool := !delimiters.contains character

/-- Whether a name begins with an upper-case letter and has no character by which the parts of a text are told
apart.  Every letter beyond the basic ones passes for upper-case. -/
def isConstructorName (name : String) : Bool :=
  name.toList.head?.any (fun first => first.isUpper || 128 ≤ first.toNat) && name.toList.all isWordChar

mutual

/-- Whether every tuple has at least two components, and every constructor a name for one. -/
def legible : Witness → Bool
  | wildcard => true
  | unit => true
  | bool _ => true
  | int _ => true
  | str _ => true
  | nil => true
  | cons head tail => head.legible && tail.legible
  | tuple components => decide (2 ≤ components.length) && legibleList components
  | constant name => isConstructorName name
  | applied name payload => isConstructorName name && payload.legible

def legibleList : List Witness → Bool
  | [] => true
  | witness :: rest => witness.legible && legibleList rest

end

theorem legibleList_iff {witnesses : List Witness} :
    legibleList witnesses = true ↔ ∀ witness ∈ witnesses, witness.legible = true := by
  induction witnesses with
  | nil => simp [legibleList]
  | cons witness rest inductionHypothesis => simp [legibleList, inductionHypothesis]

/-! ## Pieces of texts -/

/-- A text of which nothing but its parts stands outside parentheses. -/
inductive Piece where
  | word (characters : List Char)
  | literal (value : String)
  | group (name : List Char) (parts : List Witness)

namespace Piece

def text : Piece → List Char
  | word characters => characters
  | literal value => (Text.quoted value).toList
  | group name parts => name ++ '(' :: ((textList parts).toList ++ [')'])

def parts : Piece → List Witness
  | word _ => []
  | literal _ => []
  | group _ parts => parts

def Sound : Piece → Prop
  | word characters => characters ≠ [] ∧ ∀ character ∈ characters, isWordChar character = true
  | literal _ => True
  | group name _ => ∀ character ∈ name, isWordChar character = true

end Piece

def payloadParts : Witness → List Witness
  | tuple components => components
  | payload => [payload]

def piece : Witness → Piece
  | wildcard => .word ['_']
  | unit => .group [] []
  | bool value => .word (toString value).toList
  | int value => .word (toString value).toList
  | str value => .literal value
  | nil => .word ['[', ']']
  | cons head tail => .group [] [cons head tail]
  | tuple components => .group [] components
  | constant name => .word name.toList
  | applied name payload => .group name.toList payload.payloadParts

theorem text_piece (witness : Witness) : witness.piece.text =
    if witness.isCons then '(' :: (witness.text.toList ++ [')']) else witness.text.toList := by
  cases witness with
  | applied name payload =>
      cases payload <;> simp [piece, Piece.text, isCons, text, payloadParts, textList, String.toList_append]
  | _ => simp [piece, Piece.text, isCons, text, textList, String.toList_append]

theorem toList_text_cons (head tail : Witness) : (cons head tail).text.toList =
    head.piece.text ++ ' ' :: ':' :: ':' :: ' ' :: tail.text.toList := by
  rw [text_piece, text]
  cases head.isCons <;> simp [String.toList_append]

/-! ## Legible pieces -/

theorem isConstructorName_eq_cons {name : String} (legible : isConstructorName name = true) :
    ∃ first rest, name.toList = first :: rest ∧ (first.isUpper = true ∨ 128 ≤ first.toNat) ∧
      ∀ character ∈ name.toList, isWordChar character = true := by
  rw [isConstructorName, Bool.and_eq_true, List.all_eq_true] at legible
  cases characters : name.toList with
  | nil =>
      rw [characters] at legible
      exact absurd legible.1 Bool.false_ne_true
  | cons first rest =>
      rw [characters] at legible
      refine ⟨first, rest, rfl, ?_, legible.2⟩
      simpa using legible.1

theorem toList_toString_int (value : Int) : ∃ first rest, (toString value).toList = first :: rest ∧
    (first.isDigit = true ∨ first = '-') ∧ ∀ character ∈ rest, character.isDigit = true := by
  cases value with
  | ofNat number =>
      change ∃ first rest, (toString number).toList = first :: rest ∧ _
      have digits : ∀ character ∈ Nat.toDigits 10 number, character.isDigit = true :=
        Text.isDigit_of_mem_toDigits
      rw [Text.toList_toString]
      cases written : Nat.toDigits 10 number with
      | nil => exact absurd written Nat.toDigits_ne_nil
      | cons first rest =>
          rw [written, List.forall_mem_cons] at digits
          exact ⟨first, rest, rfl, .inl digits.1, digits.2⟩
  | negSucc number =>
      refine ⟨'-', (toString (number + 1)).toList, by simp [toString, Int.repr], .inr rfl, ?_⟩
      rw [Text.toList_toString]
      exact Text.isDigit_of_mem_toDigits

theorem isWordChar_of_isDigit {character : Char} (digit : character.isDigit = true) :
    isWordChar character = true := by
  simp only [isWordChar, delimiters, List.contains_cons, List.contains_nil, Bool.or_false, Bool.not_eq_true',
    Bool.or_eq_false_iff, beq_eq_false_iff_ne]
  refine ⟨?_, ?_, ?_, ?_, ?_⟩ <;> (rintro rfl; cases digit)

theorem sound_piece {witness : Witness} (legible : witness.legible = true) : witness.piece.Sound := by
  cases witness with
  | wildcard => exact ⟨by decide, List.all_eq_true.mp (by decide)⟩
  | unit => exact List.forall_mem_nil _
  | bool value => cases value <;> exact ⟨by decide, List.all_eq_true.mp (by decide)⟩
  | int value =>
      obtain ⟨first, rest, written, leading, digits⟩ := toList_toString_int value
      change (toString value).toList ≠ [] ∧ ∀ character ∈ (toString value).toList, isWordChar character = true
      rw [written]
      refine ⟨List.cons_ne_nil _ _, List.forall_mem_cons.mpr
        ⟨?_, fun character among => isWordChar_of_isDigit (digits character among)⟩⟩
      rcases leading with digit | rfl
      · exact isWordChar_of_isDigit digit
      · decide
  | str value => trivial
  | nil => exact ⟨by decide, List.all_eq_true.mp (by decide)⟩
  | cons head tail => exact List.forall_mem_nil _
  | tuple components => exact List.forall_mem_nil _
  | constant name =>
      obtain ⟨first, rest, characters, -, word⟩ := isConstructorName_eq_cons legible
      exact ⟨by rw [characters]; exact List.cons_ne_nil _ _, word⟩
  | applied name payload =>
      rw [Witness.legible, Bool.and_eq_true] at legible
      obtain ⟨-, -, -, -, word⟩ := isConstructorName_eq_cons legible.1
      exact word

theorem two_le_of_legible {components : List Witness} (legible : (tuple components).legible = true) :
    2 ≤ components.length := by
  rw [Witness.legible, Bool.and_eq_true, decide_eq_true_eq] at legible
  exact legible.1

theorem legible_payloadParts {payload : Witness} (legible : payload.legible = true) :
    ∀ part ∈ payload.payloadParts, part.legible = true := by
  cases payload with
  | tuple components =>
      rw [Witness.legible, Bool.and_eq_true] at legible
      exact legibleList_iff.mp legible.2
  | _ => exact List.forall_mem_singleton.mpr legible

theorem legible_parts {witness : Witness} (legible : witness.legible = true) :
    ∀ part ∈ witness.piece.parts, part.legible = true := by
  cases witness with
  | cons head tail => exact List.forall_mem_singleton.mpr legible
  | tuple components =>
      rw [Witness.legible, Bool.and_eq_true] at legible
      exact legibleList_iff.mp legible.2
  | applied name payload =>
      rw [Witness.legible, Bool.and_eq_true] at legible
      exact legible_payloadParts legible.2
  | _ => exact List.forall_mem_nil _

inductive Form where
  | wildcard
  | unit
  | bool
  | int
  | str
  | nil
  | cons
  | tuple
  | constant
  | applied
deriving DecidableEq

def form : Witness → Form
  | wildcard => .wildcard
  | unit => .unit
  | bool _ => .bool
  | int _ => .int
  | str _ => .str
  | nil => .nil
  | cons _ _ => .cons
  | tuple _ => .tuple
  | constant _ => .constant
  | applied _ _ => .applied

def wordForm (first : Char) : Form :=
  if first = '_' then .wildcard
  else if first = '[' then .nil
  else if first = 't' ∨ first = 'f' then .bool
  else if first.isDigit = true ∨ first = '-' then .int
  else .constant

/-- The form of what is written as a group, which shows in whether it has a name and in the number of its
parts. -/
def groupForm (name : List Char) (parts : List Witness) : Form :=
  if name ≠ [] then .applied else if parts.length = 0 then .unit
  else if parts.length = 1 then .cons else .tuple

def Piece.form : Piece → Form
  | word characters => (characters.head?.map wordForm).getD .wildcard
  | literal _ => .str
  | group name parts => groupForm name parts

theorem wordForm_of_upper {first : Char} (upper : first.isUpper = true ∨ 128 ≤ first.toNat) :
    wordForm first = .constant := by
  have other {character : Char} (lower : character.isUpper = false) (basic : character.toNat < 128) :
      first ≠ character := by
    rintro rfl
    rcases upper with isUpper | beyond
    · rw [lower] at isUpper
      exact absurd isUpper Bool.false_ne_true
    · omega
  have noDigit : ¬first.isDigit = true := by
    intro digit
    simp only [Char.isDigit, Bool.and_eq_true, decide_eq_true_eq, ge_iff_le, UInt32.le_iff_toNat_le,
      Char.reduceVal, UInt32.reduceToNat] at digit
    rcases upper with isUpper | beyond
    · have between := of_decide_eq_true isUpper
      simp only [ge_iff_le, UInt32.le_iff_toNat_le, Char.reduceVal, UInt32.reduceToNat] at between
      omega
    · change 128 ≤ first.val.toNat at beyond
      omega
  rw [wordForm, if_neg (other rfl (by decide)), if_neg (other rfl (by decide)), if_neg, if_neg]
  · exact not_or.mpr ⟨noDigit, other rfl (by decide)⟩
  · exact not_or.mpr ⟨other rfl (by decide), other rfl (by decide)⟩

theorem wordForm_of_digit {first : Char} (digit : first.isDigit = true) : wordForm first = .int := by
  have other {character : Char} (noDigit : character.isDigit = false) : first ≠ character := by
    rintro rfl
    rw [noDigit] at digit
    exact absurd digit Bool.false_ne_true
  rw [wordForm, if_neg (other rfl), if_neg (other rfl), if_neg, if_pos (.inl digit)]
  exact not_or.mpr ⟨other rfl, other rfl⟩

theorem form_piece {witness : Witness} (legible : witness.legible = true) :
    witness.piece.form = witness.form := by
  cases witness with
  | wildcard => decide
  | unit => rfl
  | bool value => cases value <;> decide
  | int value =>
      obtain ⟨first, rest, written, digit | rfl, -⟩ := toList_toString_int value
      · rw [piece, Piece.form, written]
        exact wordForm_of_digit digit
      · rw [piece, Piece.form, written]
        rfl
  | str value => rfl
  | nil => decide
  | cons head tail => rfl
  | tuple components =>
      have two := two_le_of_legible legible
      rw [piece, Piece.form, groupForm, if_neg (not_not.mpr rfl), if_neg (by omega), if_neg (by omega)]
      rfl
  | constant name =>
      obtain ⟨first, rest, characters, upper, -⟩ := isConstructorName_eq_cons legible
      rw [piece, Piece.form, characters]
      exact wordForm_of_upper upper
  | applied name payload =>
      rw [Witness.legible, Bool.and_eq_true] at legible
      obtain ⟨first, rest, characters, -⟩ := isConstructorName_eq_cons legible.1
      rw [piece, Piece.form, characters]
      exact if_pos (List.cons_ne_nil _ _)

theorem toString_int_injective {value other : Int} (same : (toString value).toList = (toString other).toList) :
    value = other := by
  have natural {number second : Nat} (sameDigits : (toString number).toList = (toString second).toList) :
      number = second :=
    (Text.toString_append_inj (Text.stops_nil _) (Text.stops_nil _) (congrArg (· ++ []) sameDigits)).1
  have negative (number : Nat) : (toString (Int.negSucc number)).toList = '-' :: (toString (number + 1)).toList := by
    simp [toString, Int.repr]
  have unsigned (number : Nat) (rest : List Char) : (toString number).toList ≠ '-' :: rest := by
    intro signed
    rw [Text.toList_toString] at signed
    have among : '-' ∈ Nat.toDigits 10 number := by
      rw [signed]
      exact List.mem_cons_self
    exact absurd (Text.isDigit_of_mem_toDigits '-' among) (by decide)
  cases value with
  | ofNat number =>
      cases other with
      | ofNat second => exact congrArg Int.ofNat (natural same)
      | negSucc second => exact absurd (same.trans (negative second)) (unsigned number _)
  | negSucc number =>
      cases other with
      | ofNat second => exact absurd (same.symm.trans (negative number)) (unsigned second _)
      | negSucc second =>
          rw [negative, negative] at same
          exact congrArg Int.negSucc (Nat.succ.inj (natural (List.cons.inj same).2))

theorem payloadParts_injective {payload other : Witness} (legible : payload.legible = true)
    (otherLegible : other.legible = true) (same : payload.payloadParts = other.payloadParts) :
    payload = other := by
  have alone {components : List Witness} (legible : (tuple components).legible = true) (part : Witness) :
      components ≠ [part] := by
    rintro rfl
    exact absurd (two_le_of_legible legible) (by simp)
  cases payload with
  | tuple components =>
      cases other with
      | tuple others => exact congrArg tuple same
      | _ => exact absurd same (alone legible _)
  | _ =>
      cases other with
      | tuple others => exact absurd same.symm (alone otherLegible _)
      | _ => exact (List.cons.inj same).1

theorem piece_injective {witness other : Witness} (legible : witness.legible = true)
    (otherLegible : other.legible = true) (same : witness.piece = other.piece) : witness = other := by
  have sameForm : witness.form = other.form := by rw [← form_piece legible, same, form_piece otherLegible]
  cases witness with
  | wildcard => cases other <;> first | rfl | cases sameForm
  | unit => cases other <;> first | rfl | cases sameForm
  | bool value =>
      cases other with
      | bool second =>
          have sameWord := Piece.word.inj same
          cases value <;> cases second <;> first | rfl | cases sameWord
      | _ => cases sameForm
  | int value =>
      cases other with
      | int second => exact congrArg int (toString_int_injective (Piece.word.inj same))
      | _ => cases sameForm
  | str value =>
      cases other with
      | str second => exact congrArg str (Piece.literal.inj same)
      | _ => cases sameForm
  | nil => cases other <;> first | rfl | cases sameForm
  | cons head tail =>
      cases other with
      | cons second rest => exact (List.cons.inj (Piece.group.inj same).2).1
      | _ => cases sameForm
  | tuple components =>
      cases other with
      | tuple others => exact congrArg tuple (Piece.group.inj same).2
      | _ => cases sameForm
  | constant name =>
      cases other with
      | constant second => exact congrArg constant (String.toList_inj.mp (Piece.word.inj same))
      | _ => cases sameForm
  | applied name payload =>
      cases other with
      | applied second other =>
          rw [Witness.legible, Bool.and_eq_true] at legible otherLegible
          obtain ⟨sameName, sameParts⟩ := Piece.group.inj same
          rw [String.toList_inj.mp sameName, payloadParts_injective legible.2 otherLegible.2 sameParts]
      | _ => cases sameForm

/-! ## What can follow a text -/

def Ends (rest : List Char) : Prop := ∀ first ∈ rest.head?, first ∈ [',', ')']

/-- Whether what follows a piece, if anything, is what can follow a witness, or the space after the head of a
cell. -/
def Pauses (rest : List Char) : Prop := ∀ first ∈ rest.head?, first ∈ [' ', ',', ')']

theorem Ends.pauses {rest : List Char} (ends : Ends rest) : Pauses rest :=
  fun first among => List.mem_cons_of_mem _ (ends first among)

theorem pauses_cons {first : Char} {rest : List Char} :
    Pauses (first :: rest) ↔ first ∈ [' ', ',', ')'] := by
  simp [Pauses]

theorem ends_cons {first : Char} {rest : List Char} : Ends (first :: rest) ↔ first ∈ [',', ')'] := by
  simp [Ends]

theorem Pauses.stops {rest : List Char} (pauses : Pauses rest) : Text.Stops isWordChar rest := by
  intro first among
  have pause := pauses first among
  simp only [List.mem_cons, List.not_mem_nil, or_false] at pause
  rcases pause with rfl | rfl | rfl <;> rfl

/-- Whether a witness can be read off whatever may follow it. -/
def Separable (witness : Witness) : Prop :=
  ∀ ⦃other : Witness⦄ ⦃rest more : List Char⦄, other.legible = true → Ends rest → Ends more →
    witness.text.toList ++ rest = other.text.toList ++ more → witness = other ∧ rest = more

/-! ## Parts between parentheses -/

def following : List Witness → List Char
  | [] => []
  | next :: rest => ',' :: ' ' :: (textList (next :: rest)).toList

theorem toList_textList_cons (witness : Witness) (rest : List Witness) :
    (textList (witness :: rest)).toList = witness.text.toList ++ following rest := by
  cases rest with
  | nil => simp [textList, following]
  | cons next rest => simp [textList, following, String.toList_append]

theorem ends_following (parts : List Witness) (rest : List Char) : Ends (following parts ++ ')' :: rest) := by
  cases parts with
  | nil => exact ends_cons.mpr (by decide)
  | cons next parts => exact ends_cons.mpr (by decide)

theorem Piece.text_eq_cons {piece : Piece} (sound : piece.Sound) :
    ∃ first rest, piece.text = first :: rest ∧ first ≠ ')' := by
  have noClosing {first : Char} (word : isWordChar first = true) : first ≠ ')' := by
    rintro rfl
    exact absurd word (by decide)
  cases piece with
  | word characters =>
      cases characters with
      | nil => exact absurd rfl sound.1
      | cons first rest => exact ⟨first, rest, rfl, noClosing (sound.2 first (.head _))⟩
  | literal value => exact ⟨'"', _, Text.toList_quoted value, by decide⟩
  | group name parts =>
      cases name with
      | nil => exact ⟨'(', _, rfl, by decide⟩
      | cons first rest => exact ⟨first, _, rfl, noClosing (sound first (.head _))⟩

theorem text_eq_cons {witness : Witness} (legible : witness.legible = true) :
    ∃ first rest, witness.text.toList = first :: rest ∧ first ≠ ')' := by
  cases cell : witness.isCons with
  | false =>
      obtain ⟨first, rest, written, noClosing⟩ := Piece.text_eq_cons (sound_piece legible)
      rw [text_piece, cell] at written
      exact ⟨first, rest, written, noClosing⟩
  | true =>
      cases witness with
      | cons head tail =>
          rw [Witness.legible, Bool.and_eq_true] at legible
          obtain ⟨first, rest, written, noClosing⟩ := Piece.text_eq_cons (sound_piece legible.1)
          rw [toList_text_cons, written]
          exact ⟨first, _, rfl, noClosing⟩
      | _ => cases cell

theorem parts_append_inj {parts others : List Witness} {rest more : List Char}
    (separable : ∀ part ∈ parts, part.Separable) (legible : ∀ part ∈ parts, part.legible = true)
    (othersLegible : ∀ part ∈ others, part.legible = true)
    (same : (textList parts).toList ++ ')' :: rest = (textList others).toList ++ ')' :: more) :
    parts = others ∧ rest = more := by
  induction parts generalizing others with
  | nil =>
      cases others with
      | nil => exact ⟨rfl, (List.cons.inj same).2⟩
      | cons other others =>
          obtain ⟨first, behind, written, noClosing⟩ := text_eq_cons (othersLegible other (.head _))
          rw [toList_textList_cons, written] at same
          exact absurd (List.cons.inj same).1.symm noClosing
  | cons part parts inductionHypothesis =>
      cases others with
      | nil =>
          obtain ⟨first, behind, written, noClosing⟩ := text_eq_cons (legible part (.head _))
          rw [toList_textList_cons, written] at same
          exact absurd (List.cons.inj same).1 noClosing
      | cons other others =>
          rw [List.forall_mem_cons] at separable legible othersLegible
          rw [toList_textList_cons, toList_textList_cons, List.append_assoc, List.append_assoc] at same
          obtain ⟨rfl, sameRest⟩ :=
            separable.1 othersLegible.1 (ends_following _ _) (ends_following _ _) same
          cases parts with
          | nil =>
              cases others with
              | nil => exact ⟨rfl, (List.cons.inj sameRest).2⟩
              | cons next others => exact absurd (List.cons.inj sameRest).1 (by decide)
          | cons next parts =>
              cases others with
              | nil => exact absurd (List.cons.inj sameRest).1 (by decide)
              | cons otherNext others =>
                  obtain ⟨sameParts, sameEnd⟩ := inductionHypothesis separable.2 legible.2 othersLegible.2
                    (List.cons.inj (List.cons.inj sameRest).2).2
                  exact ⟨congrArg _ sameParts, sameEnd⟩

/-! ## Reading a piece -/

namespace Piece

def front : Piece → List Char
  | word characters => characters
  | literal _ => []
  | group name _ => name

def back : Piece → List Char
  | word _ => []
  | literal value => (Text.quoted value).toList
  | group _ parts => '(' :: ((textList parts).toList ++ [')'])

theorem text_eq_append (piece : Piece) : piece.text = piece.front ++ piece.back := by
  cases piece with
  | word characters => exact (List.append_nil _).symm
  | literal value => rfl
  | group name parts => rfl

theorem isWordChar_of_mem_front {piece : Piece} (sound : piece.Sound) :
    ∀ character ∈ piece.front, isWordChar character = true := by
  cases piece with
  | word characters => exact sound.2
  | literal value => exact List.forall_mem_nil _
  | group name parts => exact sound

theorem stops_back {piece : Piece} {rest : List Char} (pauses : Pauses rest) :
    Text.Stops isWordChar (piece.back ++ rest) := by
  cases piece with
  | word characters => exact pauses.stops
  | literal value =>
      rw [back, Text.toList_quoted]
      exact Text.stops_cons.mpr (by decide)
  | group name parts => exact Text.stops_cons.mpr (by decide)

theorem text_append_inj {piece other : Piece} {rest more : List Char} (sound : piece.Sound)
    (otherSound : other.Sound) (separable : ∀ part ∈ piece.parts, part.Separable)
    (legible : ∀ part ∈ piece.parts, part.legible = true)
    (otherLegible : ∀ part ∈ other.parts, part.legible = true) (pauses : Pauses rest)
    (morePauses : Pauses more) (same : piece.text ++ rest = other.text ++ more) :
    piece = other ∧ rest = more := by
  rw [text_eq_append, text_eq_append, List.append_assoc, List.append_assoc] at same
  obtain ⟨sameFront, sameBack⟩ := Text.append_inj_of_stops (isWordChar_of_mem_front sound)
    (isWordChar_of_mem_front otherSound) (stops_back pauses) (stops_back morePauses) same
  have opens {rest behind : List Char} (pauses : Pauses rest) : rest ≠ '(' :: behind := by
    rintro rfl
    exact absurd (pauses_cons.mp pauses) (by decide)
  cases piece with
  | word characters =>
      cases other with
      | word others => exact ⟨congrArg word sameFront, sameBack⟩
      | literal value => exact absurd sameFront sound.1
      | group name parts => exact absurd sameBack (opens pauses)
  | literal value =>
      cases other with
      | word others => exact absurd sameFront.symm otherSound.1
      | literal second =>
          obtain ⟨rfl, sameRest⟩ := Text.quoted_append_inj sameBack
          exact ⟨rfl, sameRest⟩
      | group name parts =>
          rw [back, back, Text.toList_quoted] at sameBack
          exact absurd (List.cons.inj sameBack).1 (by decide)
  | group name parts =>
      cases other with
      | word others => exact absurd sameBack.symm (opens morePauses)
      | literal second =>
          rw [back, back, Text.toList_quoted] at sameBack
          exact absurd (List.cons.inj sameBack).1 (by decide)
      | group second others =>
          simp only [back, List.cons_append, List.append_assoc, List.nil_append] at sameBack
          obtain ⟨rfl, sameRest⟩ :=
            parts_append_inj separable legible otherLegible (List.cons.inj sameBack).2
          exact ⟨congrArg (group · parts) sameFront, sameRest⟩

end Piece

theorem piece_append_inj {witness other : Witness} {rest more : List Char} (legible : witness.legible = true)
    (separable : ∀ part ∈ witness.piece.parts, part.Separable) (otherLegible : other.legible = true)
    (pauses : Pauses rest) (morePauses : Pauses more)
    (same : witness.piece.text ++ rest = other.piece.text ++ more) : witness = other ∧ rest = more := by
  obtain ⟨samePiece, sameRest⟩ := Piece.text_append_inj (sound_piece legible) (sound_piece otherLegible)
    separable (legible_parts legible) (legible_parts otherLegible) pauses morePauses same
  exact ⟨piece_injective legible otherLegible samePiece, sameRest⟩

theorem pauses_tail (tail rest : List Char) : Pauses (' ' :: ':' :: ':' :: ' ' :: tail ++ rest) :=
  pauses_cons.mpr (by decide)

theorem not_ends_tail {tail rest more : List Char} (ends : Ends more) :
    more ≠ ' ' :: ':' :: ':' :: ' ' :: tail ++ rest := by
  rintro rfl
  exact absurd (ends_cons.mp ends) (by decide)

theorem separable_of_parts {witness : Witness} (legible : witness.legible = true)
    (separable : ∀ part ∈ witness.piece.parts, part.Separable) : witness.Separable := by
  cases cell : witness.isCons with
  | true =>
      cases witness with
      | cons head tail => exact separable _ (.head _)
      | _ => cases cell
  | false =>
      intro other rest more otherLegible ends moreEnds same
      have written := text_piece witness
      rw [cell, if_neg Bool.false_ne_true] at written
      rw [← written] at same
      cases otherCell : other.isCons with
      | false =>
          have otherWritten := text_piece other
          rw [otherCell, if_neg Bool.false_ne_true] at otherWritten
          rw [← otherWritten] at same
          exact piece_append_inj legible separable otherLegible ends.pauses moreEnds.pauses same
      | true =>
          cases other with
          | cons head tail =>
              rw [toList_text_cons, List.append_assoc] at same
              rw [Witness.legible, Bool.and_eq_true] at otherLegible
              obtain ⟨-, sameRest⟩ := piece_append_inj legible separable otherLegible.1 ends.pauses
                (pauses_tail _ _) same
              exact absurd sameRest (not_ends_tail ends)
          | _ => cases otherCell

theorem separable_cons {head tail : Witness} (legible : head.legible = true)
    (headParts : ∀ part ∈ head.piece.parts, part.Separable) (tailSeparable : tail.Separable) :
    (cons head tail).Separable := by
  intro other rest more otherLegible ends moreEnds same
  rw [toList_text_cons, List.append_assoc] at same
  cases otherCell : other.isCons with
  | false =>
      have otherWritten := text_piece other
      rw [otherCell, if_neg Bool.false_ne_true] at otherWritten
      rw [← otherWritten] at same
      obtain ⟨-, sameRest⟩ := piece_append_inj legible headParts otherLegible (pauses_tail _ _)
        moreEnds.pauses same
      exact absurd sameRest.symm (not_ends_tail moreEnds)
  | true =>
      cases other with
      | cons otherHead otherTail =>
          rw [toList_text_cons, List.append_assoc] at same
          rw [Witness.legible, Bool.and_eq_true] at otherLegible
          obtain ⟨rfl, sameTail⟩ := piece_append_inj legible headParts otherLegible.1 (pauses_tail _ _)
            (pauses_tail _ _) same
          have sameBehind := (List.cons.inj (List.cons.inj (List.cons.inj (List.cons.inj sameTail).2).2).2).2
          obtain ⟨rfl, sameRest⟩ := tailSeparable otherLegible.2 ends moreEnds sameBehind
          exact ⟨rfl, sameRest⟩
      | _ => cases otherCell

mutual

theorem separable_parts : ∀ witness : Witness, witness.legible = true →
    ∀ part ∈ witness.piece.parts, part.Separable
  | .wildcard, _ => List.forall_mem_nil _
  | .unit, _ => List.forall_mem_nil _
  | .bool _, _ => List.forall_mem_nil _
  | .int _, _ => List.forall_mem_nil _
  | .str _, _ => List.forall_mem_nil _
  | .nil, _ => List.forall_mem_nil _
  | .cons head tail, legible => by
      rw [Witness.legible, Bool.and_eq_true] at legible
      have tailSeparable := separable_of_parts legible.2 (separable_parts tail legible.2)
      exact List.forall_mem_singleton.mpr
        (separable_cons legible.1 (separable_parts head legible.1) tailSeparable)
  | .tuple components, legible => by
      rw [Witness.legible, Bool.and_eq_true] at legible
      exact separable_components components legible.2
  | .constant _, _ => List.forall_mem_nil _
  | .applied name payload, legible => by
      rw [Witness.legible, Bool.and_eq_true] at legible
      have parts := separable_parts payload legible.2
      cases payload with
      | tuple components => exact parts
      | _ => exact List.forall_mem_singleton.mpr (separable_of_parts legible.2 parts)

theorem separable_components : ∀ components : List Witness, legibleList components = true →
    ∀ component ∈ components, component.Separable
  | [], _ => List.forall_mem_nil _
  | component :: rest, legible => by
      rw [legibleList, Bool.and_eq_true] at legible
      exact List.forall_mem_cons.mpr
        ⟨separable_of_parts legible.1 (separable_parts component legible.1),
          separable_components rest legible.2⟩

end

end TypedMatch.Witness
