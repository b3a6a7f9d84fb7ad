import TypedMatch.Ty.Face
import TypedMatch.Ty.Lemmas

/-!
# Types by name

A text shows the name of a declared type and not its number, and takes a synonym for the application of its
name.  `Ty.byName` keeps of a type what its text can show.  A type is legible if its products have two
components or more, its labels and names are words, and no declared type goes by a name that means something
else.
-/

set_option autoImplicit false

namespace TypedMatch

/-! ## Words -/

/-- Whether a character can stand in a word: it is none of those that texts of types have around words. -/
def isWordChar (c : Char) : Bool :=
  c ∉ [' ', '(', ')', '[', ']', ',', ';', ':', '?', '|', '*', '\'']

/-- Whether a text is a word.  A hyphen may stand anywhere but at the start, where it opens an arrow. -/
def isWord (text : String) : Bool :=
  match text.toList with
  | [] => false
  | c :: rest => c != '-' && isWordChar c && rest.all isWordChar

def BaseTy.all : List BaseTy :=
  [unit, bool, int, float, length, string, inlineText, blockText, mathText, inlineBoxes, blockBoxes, context,
    prePath, path, graphics, image, document, regexp, textInfo, inputPosition]

def BaseTy.ofText? (word : String) : Option BaseTy := all.find? fun base => base.text = word

/-- Whether a text can be the name of a declared type: a word that does not mean something else. -/
def isTypeName (text : String) : Bool :=
  isWord text && (BaseTy.ofText? text).isNone
    && text ∉ ["list", "ref", CommandMode.inline.text, CommandMode.block.text, CommandMode.math.text]

theorem BaseTy.ofText?_text (base : BaseTy) : ofText? base.text = some base := by
  cases base <;> rfl

theorem BaseTy.isWord_text (base : BaseTy) : isWord base.text = true := by
  cases base <;> rfl

theorem isWord_of_isTypeName {text : String} (isName : isTypeName text = true) : isWord text = true := by
  simp only [isTypeName, Bool.and_eq_true] at isName
  exact isName.1.1

theorem exists_of_isWord {text : String} (isWord : isWord text = true) :
    ∃ c rest, text.toList = c :: rest ∧ c ≠ '-' ∧ isWordChar c = true ∧ ∀ d ∈ rest, isWordChar d = true := by
  rw [TypedMatch.isWord] at isWord
  split at isWord
  · cases isWord
  · rename_i c rest split
    simp only [Bool.and_eq_true, bne_iff_ne, List.all_eq_true] at isWord
    exact ⟨c, rest, split, isWord.1.1, isWord.1.2, isWord.2⟩

namespace Ty

variable {Var NewVar : Type}

/-! ## What a text can show -/

mutual

/-- The type with every synonym taken for the application of its name, and every declared type known by its
name alone. -/
def byName : Ty Var → Ty Var
  | base b => .base b
  | var v => .var v
  | arrow optional domain codomain => .arrow (byNameList optional) domain.byName codomain.byName
  | list element => .list element.byName
  | ref content => .ref content.byName
  | product components => .product (byNameList components)
  | data con args => .data ⟨0, con.name⟩ (byNameList args)
  | synonym con args _ => .data ⟨0, con.name⟩ (byNameList args)
  | record fields => .record (byNameFields fields)
  | command mode args => .command mode (byNameArgs args)

def byNameList : List (Ty Var) → List (Ty Var)
  | [] => []
  | type :: rest => type.byName :: byNameList rest

def byNameFields : List (String × Ty Var) → List (String × Ty Var)
  | [] => []
  | (label, type) :: rest => (label, type.byName) :: byNameFields rest

def byNameArgs : List (ArgMode × Ty Var) → List (ArgMode × Ty Var)
  | [] => []
  | (mode, type) :: rest => (mode, type.byName) :: byNameArgs rest

end

mutual

theorem leaves_byName : ∀ type : Ty Var, type.byName.leaves = type.shown
  | .base _ => rfl
  | .var _ => rfl
  | .arrow optional domain codomain => by
      simp only [byName, leaves, shown, leavesList_byNameList optional, leaves_byName domain,
        leaves_byName codomain]
  | .list element => by simp only [byName, leaves, shown, leaves_byName element]
  | .ref content => by simp only [byName, leaves, shown, leaves_byName content]
  | .product components => by simp only [byName, leaves, shown, leavesList_byNameList components]
  | .data _ args => by simp only [byName, leaves, shown, leavesList_byNameList args]
  | .synonym _ args _ => by simp only [byName, leaves, shown, leavesList_byNameList args]
  | .record fields => by simp only [byName, leaves, shown, leavesFields_byNameFields fields]
  | .command _ args => by simp only [byName, leaves, shown, leavesArgs_byNameArgs args]

theorem leavesList_byNameList : ∀ types : List (Ty Var), leavesList (byNameList types) = shownList types
  | [] => rfl
  | type :: rest => by
      simp only [byNameList, leavesList, shownList, leaves_byName type, leavesList_byNameList rest]

theorem leavesFields_byNameFields :
    ∀ fields : List (String × Ty Var), leavesFields (byNameFields fields) = shownFields fields
  | [] => rfl
  | (_, type) :: rest => by
      simp only [byNameFields, leavesFields, shownFields, leaves_byName type,
        leavesFields_byNameFields rest]

theorem leavesArgs_byNameArgs :
    ∀ args : List (ArgMode × Ty Var), leavesArgs (byNameArgs args) = shownArgs args
  | [] => rfl
  | (_, type) :: rest => by
      simp only [byNameArgs, leavesArgs, shownArgs, leaves_byName type, leavesArgs_byNameArgs rest]

end

mutual

theorem byName_bind (replace : Var → Ty NewVar) :
    ∀ type : Ty Var, (type.bind replace).byName = type.byName.bind fun v => (replace v).byName
  | .base _ => rfl
  | .var _ => rfl
  | .arrow optional domain codomain => by
      simp only [bind, byName, byNameList_bindList replace optional, byName_bind replace domain,
        byName_bind replace codomain]
  | .list element => by simp only [bind, byName, byName_bind replace element]
  | .ref content => by simp only [bind, byName, byName_bind replace content]
  | .product components => by simp only [bind, byName, byNameList_bindList replace components]
  | .data _ args => by simp only [bind, byName, byNameList_bindList replace args]
  | .synonym _ args _ => by simp only [bind, byName, byNameList_bindList replace args]
  | .record fields => by simp only [bind, byName, byNameFields_bindFields replace fields]
  | .command _ args => by simp only [bind, byName, byNameArgs_bindArgs replace args]

theorem byNameList_bindList (replace : Var → Ty NewVar) :
    ∀ types : List (Ty Var),
      byNameList (bindList replace types) = bindList (fun v => (replace v).byName) (byNameList types)
  | [] => rfl
  | type :: rest => by
      simp only [bindList, byNameList, byName_bind replace type, byNameList_bindList replace rest]

theorem byNameFields_bindFields (replace : Var → Ty NewVar) :
    ∀ fields : List (String × Ty Var),
      byNameFields (bindFields replace fields)
        = bindFields (fun v => (replace v).byName) (byNameFields fields)
  | [] => rfl
  | (_, type) :: rest => by
      simp only [bindFields, byNameFields, byName_bind replace type, byNameFields_bindFields replace rest]

theorem byNameArgs_bindArgs (replace : Var → Ty NewVar) :
    ∀ args : List (ArgMode × Ty Var),
      byNameArgs (bindArgs replace args) = bindArgs (fun v => (replace v).byName) (byNameArgs args)
  | [] => rfl
  | (_, type) :: rest => by
      simp only [bindArgs, byNameArgs, byName_bind replace type, byNameArgs_bindArgs replace rest]

end

theorem byName_map (rename : Var → NewVar) (type : Ty Var) :
    (type.map rename).byName = type.byName.map rename := byName_bind _ type

theorem shown_bind (replace : Var → Ty NewVar) (type : Ty Var) :
    (type.bind replace).shown = type.shown.flatMap fun v => (replace v).shown := by
  simp only [← leaves_byName, byName_bind, leaves_bind]

theorem shown_map (rename : Var → NewVar) (type : Ty Var) :
    (type.map rename).shown = type.shown.map rename := by
  simp only [← leaves_byName, byName_map, leaves_map]

theorem map_map {LastVar : Type} (first : Var → NewVar) (second : NewVar → LastVar) (type : Ty Var) :
    (type.map first).map second = type.map fun v => second (first v) :=
  bind_bind (fun v => .var (first v)) (fun v => .var (second v)) type

theorem map_congr {first second : Var → NewVar} (type : Ty Var)
    (agree : ∀ v ∈ type.leaves, first v = second v) : type.map first = type.map second :=
  bind_congr type fun v occurs => congrArg Ty.var (agree v occurs)

section Text

variable (leaf : NewVar → String) (rename : Var → NewVar)

mutual

theorem text_byName_bind_var (place : Place) : ∀ type : Ty Var,
    (type.byName.bind fun v => .var (rename v)).text leaf place = type.text (fun v => leaf (rename v)) place
  | .base _ => rfl
  | .var _ => rfl
  | .arrow optional domain codomain => by
      simp only [byName, bind, text, optionalText_byNameList optional, text_byName_bind_var .operand domain,
        text_byName_bind_var .whole codomain]
  | .list element => by simp only [byName, bind, text, text_byName_bind_var .atom element]
  | .ref content => by simp only [byName, bind, text, text_byName_bind_var .atom content]
  | .product components => by simp only [byName, bind, text, productText_byNameList components]
  | .data _ args => by simp only [byName, bind, text, argsText_byNameList args]
  | .synonym _ args _ => by simp only [byName, bind, text, argsText_byNameList args]
  | .record fields => by simp only [byName, bind, text, fieldsText_byNameFields fields]
  | .command _ args => by simp only [byName, bind, text, commandText_byNameArgs args]

theorem optionalText_byNameList : ∀ types : List (Ty Var),
    optionalText leaf (bindList (fun v => .var (rename v)) (byNameList types))
      = optionalText (fun v => leaf (rename v)) types
  | [] => rfl
  | type :: rest => by
      simp only [byNameList, bindList, optionalText, text_byName_bind_var .operand type,
        optionalText_byNameList rest]

theorem productText_byNameList : ∀ types : List (Ty Var),
    productText leaf (bindList (fun v => .var (rename v)) (byNameList types))
      = productText (fun v => leaf (rename v)) types
  | [] => rfl
  | [type] => by simp only [byNameList, bindList, productText, text_byName_bind_var .atom type]
  | type :: next :: rest => by
      have later := productText_byNameList (next :: rest)
      simp only [byNameList, bindList] at later
      simp only [byNameList, bindList, productText, text_byName_bind_var .atom type, later]

theorem argsText_byNameList : ∀ types : List (Ty Var),
    argsText leaf (bindList (fun v => .var (rename v)) (byNameList types))
      = argsText (fun v => leaf (rename v)) types
  | [] => rfl
  | [type] => by simp only [byNameList, bindList, argsText, text_byName_bind_var .atom type]
  | type :: next :: rest => by
      have later := moreArgsText_byNameList (next :: rest)
      simp only [byNameList, bindList] at later
      simp only [byNameList, bindList, argsText, text_byName_bind_var .whole type, later]

theorem moreArgsText_byNameList : ∀ types : List (Ty Var),
    moreArgsText leaf (bindList (fun v => .var (rename v)) (byNameList types))
      = moreArgsText (fun v => leaf (rename v)) types
  | [] => rfl
  | type :: rest => by
      simp only [byNameList, bindList, moreArgsText, text_byName_bind_var .whole type,
        moreArgsText_byNameList rest]

theorem fieldsText_byNameFields : ∀ fields : List (String × Ty Var),
    fieldsText leaf (bindFields (fun v => .var (rename v)) (byNameFields fields))
      = fieldsText (fun v => leaf (rename v)) fields
  | [] => rfl
  | [(_, type)] => by simp only [byNameFields, bindFields, fieldsText, text_byName_bind_var .whole type]
  | (_, type) :: (label, next) :: rest => by
      have later := fieldsText_byNameFields ((label, next) :: rest)
      simp only [byNameFields, bindFields] at later
      simp only [byNameFields, bindFields, fieldsText, text_byName_bind_var .whole type, later]

theorem commandText_byNameArgs : ∀ args : List (ArgMode × Ty Var),
    commandText leaf (bindArgs (fun v => .var (rename v)) (byNameArgs args))
      = commandText (fun v => leaf (rename v)) args
  | [] => rfl
  | [(_, type)] => by simp only [byNameArgs, bindArgs, commandText, text_byName_bind_var .whole type]
  | (_, type) :: (mode, next) :: rest => by
      have later := commandText_byNameArgs ((mode, next) :: rest)
      simp only [byNameArgs, bindArgs] at later
      simp only [byNameArgs, bindArgs, commandText, text_byName_bind_var .whole type, later]

end

theorem text_byName_map (place : Place) (type : Ty Var) :
    (type.byName.map rename).text leaf place = type.text (fun v => leaf (rename v)) place :=
  text_byName_bind_var leaf rename place type

theorem text_map (place : Place) (type : Ty Var) :
    (type.map rename).text leaf place = type.text (fun v => leaf (rename v)) place := by
  rw [← text_byName_map leaf (fun v => v), byName_map, map_map]
  exact text_byName_map leaf rename place type

theorem text_congr {first second : Var → String} (place : Place) (type : Ty Var)
    (agree : ∀ v ∈ type.shown, first v = second v) : type.text first place = type.text second place := by
  rw [← leaves_byName] at agree
  rw [← text_byName_map (fun name => name) first, ← text_byName_map (fun name => name) second,
    map_congr _ agree]

end Text

/-! ## Legible types -/

mutual

/-- Whether the products of a type have two components or more, its labels are words, and the names of declared
types are names of no other type.  What a synonym stands for is not looked at. -/
def legible : Ty Var → Bool
  | base _ => true
  | var _ => true
  | arrow optional domain codomain => legibleList optional && domain.legible && codomain.legible
  | list element => element.legible
  | ref content => content.legible
  | product components => decide (2 ≤ components.length) && legibleList components
  | data con args => isTypeName con.name && legibleList args
  | synonym con args _ => isTypeName con.name && legibleList args
  | record fields => legibleFields fields
  | command _ args => legibleArgs args

def legibleList : List (Ty Var) → Bool
  | [] => true
  | type :: rest => type.legible && legibleList rest

def legibleFields : List (String × Ty Var) → Bool
  | [] => true
  | (label, type) :: rest => isWord label && type.legible && legibleFields rest

def legibleArgs : List (ArgMode × Ty Var) → Bool
  | [] => true
  | (_, type) :: rest => type.legible && legibleArgs rest

end

mutual

theorem legible_bind_var (rename : Var → NewVar) :
    ∀ type : Ty Var, (type.bind fun v => .var (rename v)).legible = type.legible
  | .base _ => rfl
  | .var _ => rfl
  | .arrow optional domain codomain => by
      simp only [bind, legible, legibleList_bind_var rename optional, legible_bind_var rename domain,
        legible_bind_var rename codomain]
  | .list element => by simp only [bind, legible, legible_bind_var rename element]
  | .ref content => by simp only [bind, legible, legible_bind_var rename content]
  | .product components => by
      have sameLength : (bindList (fun v => .var (rename v)) components).length = components.length := by
        rw [bindList_eq_map, List.length_map]
      simp only [bind, legible, sameLength, legibleList_bind_var rename components]
  | .data _ args => by simp only [bind, legible, legibleList_bind_var rename args]
  | .synonym _ args _ => by simp only [bind, legible, legibleList_bind_var rename args]
  | .record fields => by simp only [bind, legible, legibleFields_bind_var rename fields]
  | .command _ args => by simp only [bind, legible, legibleArgs_bind_var rename args]

theorem legibleList_bind_var (rename : Var → NewVar) :
    ∀ types : List (Ty Var), legibleList (bindList (fun v => .var (rename v)) types) = legibleList types
  | [] => rfl
  | type :: rest => by
      simp only [bindList, legibleList, legible_bind_var rename type, legibleList_bind_var rename rest]

theorem legibleFields_bind_var (rename : Var → NewVar) :
    ∀ fields : List (String × Ty Var),
      legibleFields (bindFields (fun v => .var (rename v)) fields) = legibleFields fields
  | [] => rfl
  | (_, type) :: rest => by
      simp only [bindFields, legibleFields, legible_bind_var rename type,
        legibleFields_bind_var rename rest]

theorem legibleArgs_bind_var (rename : Var → NewVar) :
    ∀ args : List (ArgMode × Ty Var),
      legibleArgs (bindArgs (fun v => .var (rename v)) args) = legibleArgs args
  | [] => rfl
  | (_, type) :: rest => by
      simp only [bindArgs, legibleArgs, legible_bind_var rename type, legibleArgs_bind_var rename rest]

end

theorem legible_map (rename : Var → NewVar) (type : Ty Var) :
    (type.map rename).legible = type.legible := legible_bind_var rename type

end Ty

end TypedMatch
