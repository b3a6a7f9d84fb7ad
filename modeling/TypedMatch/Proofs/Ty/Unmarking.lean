import TypedMatch.Proofs.Ty.Naming

/-!
# Texts without marks

A mark is the sign `_` after the tick of a variable.  Where no name and no label has a tick of its own, every
tick in the text of a type belongs to a variable, so taking the marks out of the text gives the text of the
type whose variables have no marks.
-/

set_option autoImplicit false

namespace TypedMatch

def unmark : List Char → List Char
  | [] => []
  | '\'' :: '_' :: rest => '\'' :: unmark rest
  | c :: rest => c :: unmark rest

/-- The text in which every `'_` has given way to `'`. -/
def unmarkText (text : String) : String := String.ofList (unmark text.toList)

theorem unmark_of_ne_tick {c : Char} (notTick : c ≠ '\'') (rest : List Char) :
    unmark (c :: rest) = c :: unmark rest := by
  rw [unmark]
  rintro _ rfl _
  exact notTick rfl

theorem unmark_tick {c : Char} (notSign : c ≠ '_') (rest : List Char) :
    unmark ('\'' :: c :: rest) = '\'' :: unmark (c :: rest) := by
  rw [unmark]
  rintro _ _ same
  exact notSign (List.cons.inj same).1

/-- Whether the one text becomes the other one when marks are taken out, whatever comes after it. -/
def Unmarks (text image : String) : Prop :=
  ∀ rest, unmark (text.toList ++ rest) = image.toList ++ unmark rest

namespace Unmarks

variable {text image other otherImage : String}

theorem append (first : Unmarks text image) (second : Unmarks other otherImage) :
    Unmarks (text ++ other) (image ++ otherImage) := by
  intro rest
  rw [String.toList_append, String.toList_append, List.append_assoc, List.append_assoc, first, second]

theorem parenthesized (inner : Unmarks text image) (needed : Bool) :
    Unmarks (TypedMatch.parenthesized needed text) (TypedMatch.parenthesized needed image) := by
  cases needed with
  | false => exact inner
  | true =>
      intro rest
      have closed := inner (')' :: rest)
      simp only [TypedMatch.parenthesized, if_true, String.toList_append, List.append_assoc]
      exact congrArg ('(' :: ·) closed

theorem empty : Unmarks "" "" :=
  fun _ => rfl

theorem of_tickless (tickless : '\'' ∉ text.toList) : Unmarks text text := by
  intro rest
  revert tickless
  induction text.toList with
  | nil => exact fun _ => rfl
  | cons c chars inductionHypothesis =>
      intro tickless
      rw [List.mem_cons, not_or] at tickless
      rw [List.cons_append, unmark_of_ne_tick (Ne.symm tickless.1), inductionHypothesis tickless.2,
        List.cons_append]

theorem of_var (weak : Bool) (position : Nat) :
    Unmarks ("'" ++ ShownVar.word (weak, position)) ("'" ++ ShownVar.word (false, position)) := by
  have tickless : '\'' ∉ (ShownVar.name position).toList := by
    intro among
    cases ShownVar.isWordChar_name position _ among
  have plain : ("'" ++ ShownVar.word (false, position)).toList
      = '\'' :: (ShownVar.name position).toList := by
    simp [ShownVar.word]
  have marked : ("'" ++ ShownVar.word (true, position)).toList
      = '\'' :: '_' :: (ShownVar.name position).toList := by
    simp [ShownVar.word]
  intro rest
  have named := congrArg ('\'' :: ·) (of_tickless tickless rest)
  cases weak with
  | true =>
      rw [marked, plain]
      exact named
  | false =>
      have notSign := ShownVar.letter_ne_mark (position % 26) (Nat.mod_lt _ (by omega))
      rw [plain]
      rw [ShownVar.toList_name] at named ⊢
      exact (unmark_tick notSign _).trans named

theorem unmarkText_eq (unmarks : Unmarks text image) : unmarkText text = image := by
  have whole := unmarks []
  rw [List.append_nil, unmark, List.append_nil] at whole
  rw [unmarkText, whole, String.ofList_toList]

end Unmarks

namespace Ty

variable {Var NewVar : Type}

/-! ## Names and labels -/

mutual

def names : Ty Var → List String
  | base _ => []
  | var _ => []
  | arrow optional domain codomain => namesList optional ++ domain.names ++ codomain.names
  | list element => element.names
  | ref content => content.names
  | product components => namesList components
  | data con args => con.name :: namesList args
  | synonym con args _ => con.name :: namesList args
  | record fields => namesFields fields
  | command _ args => namesArgs args

def namesList : List (Ty Var) → List String
  | [] => []
  | type :: rest => type.names ++ namesList rest

def namesFields : List (String × Ty Var) → List String
  | [] => []
  | (label, type) :: rest => label :: type.names ++ namesFields rest

def namesArgs : List (ArgMode × Ty Var) → List String
  | [] => []
  | (_, type) :: rest => type.names ++ namesArgs rest

end

mutual

theorem names_bind_var (rename : Var → NewVar) :
    ∀ type : Ty Var, (type.bind fun v => .var (rename v)).names = type.names
  | .base _ => rfl
  | .var _ => rfl
  | .arrow optional domain codomain => by
      simp only [bind, names, namesList_bind_var rename optional, names_bind_var rename domain,
        names_bind_var rename codomain]
  | .list element => by simp only [bind, names, names_bind_var rename element]
  | .ref content => by simp only [bind, names, names_bind_var rename content]
  | .product components => by simp only [bind, names, namesList_bind_var rename components]
  | .data _ args => by simp only [bind, names, namesList_bind_var rename args]
  | .synonym _ args _ => by simp only [bind, names, namesList_bind_var rename args]
  | .record fields => by simp only [bind, names, namesFields_bind_var rename fields]
  | .command _ args => by simp only [bind, names, namesArgs_bind_var rename args]

theorem namesList_bind_var (rename : Var → NewVar) :
    ∀ types : List (Ty Var), namesList (bindList (fun v => .var (rename v)) types) = namesList types
  | [] => rfl
  | type :: rest => by
      simp only [bindList, namesList, names_bind_var rename type, namesList_bind_var rename rest]

theorem namesFields_bind_var (rename : Var → NewVar) :
    ∀ fields : List (String × Ty Var),
      namesFields (bindFields (fun v => .var (rename v)) fields) = namesFields fields
  | [] => rfl
  | (_, type) :: rest => by
      simp only [bindFields, namesFields, names_bind_var rename type, namesFields_bind_var rename rest]

theorem namesArgs_bind_var (rename : Var → NewVar) :
    ∀ args : List (ArgMode × Ty Var),
      namesArgs (bindArgs (fun v => .var (rename v)) args) = namesArgs args
  | [] => rfl
  | (_, type) :: rest => by
      simp only [bindArgs, namesArgs, names_bind_var rename type, namesArgs_bind_var rename rest]

end

theorem names_map (rename : Var → NewVar) (type : Ty Var) : (type.map rename).names = type.names :=
  names_bind_var rename type

/-! ## Texts -/

theorem tickless_base (base : BaseTy) : '\'' ∉ base.text.toList := by
  cases base <;> decide

theorem tickless_command (mode : CommandMode) : '\'' ∉ mode.text.toList := by
  cases mode <;> decide

theorem tickless_arg (mode : ArgMode) : '\'' ∉ mode.text.toList := by
  cases mode <;> decide

section Text

variable {leaf image : Var → String}

mutual

theorem unmarks_text (each : ∀ v, Unmarks (leaf v) (image v)) (place : Place) :
    ∀ type : Ty Var, (∀ name ∈ type.names, '\'' ∉ name.toList) →
    Unmarks (type.text leaf place) (type.text image place)
  | .base b, _ => .of_tickless (tickless_base b)
  | .var v, _ => each v
  | .arrow optional domain codomain, tickless => by
      simp only [names, List.forall_mem_append] at tickless
      obtain ⟨⟨inOptional, inDomain⟩, inCodomain⟩ := tickless
      have first := (unmarks_optionalText each optional inOptional).append
        (unmarks_text each .operand domain inDomain)
      have arrow : Unmarks " -> " " -> " := .of_tickless (by decide)
      exact ((first.append arrow).append (unmarks_text each .whole codomain inCodomain)).parenthesized _
  | .list element, tickless =>
      (unmarks_text each .atom element tickless).append (.of_tickless (by decide))
  | .ref content, tickless =>
      (unmarks_text each .atom content tickless).append (.of_tickless (by decide))
  | .product components, tickless => (unmarks_productText each components tickless).parenthesized _
  | .data con args, tickless => by
      obtain ⟨inName, inArgs⟩ := List.forall_mem_cons.mp tickless
      exact (unmarks_argsText each args inArgs).append (.of_tickless inName)
  | .synonym con args _, tickless => by
      obtain ⟨inName, inArgs⟩ := List.forall_mem_cons.mp tickless
      exact (unmarks_argsText each args inArgs).append (.of_tickless inName)
  | .record fields, tickless => by
      have opening : Unmarks "(|" "(|" := .of_tickless (by decide)
      exact (opening.append (unmarks_fieldsText each fields tickless)).append (.of_tickless (by decide))
  | .command mode args, tickless => by
      have opening : Unmarks "[" "[" := .of_tickless (by decide)
      have closing : Unmarks "] " "] " := .of_tickless (by decide)
      exact ((opening.append (unmarks_commandText each args tickless)).append closing).append
        (.of_tickless (tickless_command mode))

theorem unmarks_optionalText (each : ∀ v, Unmarks (leaf v) (image v)) :
    ∀ types : List (Ty Var),
    (∀ name ∈ namesList types, '\'' ∉ name.toList) →
      Unmarks (optionalText leaf types) (optionalText image types)
  | [], _ => .empty
  | type :: rest, tickless => by
      obtain ⟨inType, inRest⟩ := List.forall_mem_append.mp tickless
      have arrow : Unmarks " ?-> " " ?-> " := .of_tickless (by decide)
      exact ((unmarks_text each .operand type inType).append arrow).append (unmarks_optionalText each rest inRest)

theorem unmarks_productText (each : ∀ v, Unmarks (leaf v) (image v)) :
    ∀ types : List (Ty Var),
    (∀ name ∈ namesList types, '\'' ∉ name.toList) →
      Unmarks (productText leaf types) (productText image types)
  | [], _ => .empty
  | [type], tickless => unmarks_text each .atom type (List.forall_mem_append.mp tickless).1
  | type :: next :: rest, tickless => by
      obtain ⟨inType, inRest⟩ := List.forall_mem_append.mp tickless
      have factor : Unmarks " * " " * " := .of_tickless (by decide)
      exact ((unmarks_text each .atom type inType).append factor).append
        (unmarks_productText each (next :: rest) inRest)

theorem unmarks_argsText (each : ∀ v, Unmarks (leaf v) (image v)) :
    ∀ types : List (Ty Var),
    (∀ name ∈ namesList types, '\'' ∉ name.toList) →
      Unmarks (argsText leaf types) (argsText image types)
  | [], _ => .empty
  | [type], tickless =>
      (unmarks_text each .atom type (List.forall_mem_append.mp tickless).1).append (.of_tickless (by decide))
  | type :: next :: rest, tickless => by
      obtain ⟨inType, inRest⟩ := List.forall_mem_append.mp tickless
      have opening : Unmarks "(" "(" := .of_tickless (by decide)
      have several := (opening.append (unmarks_text each .whole type inType)).append
        (unmarks_moreArgsText each (next :: rest) inRest)
      exact several.append (.of_tickless (by decide))

theorem unmarks_moreArgsText (each : ∀ v, Unmarks (leaf v) (image v)) :
    ∀ types : List (Ty Var),
    (∀ name ∈ namesList types, '\'' ∉ name.toList) →
      Unmarks (moreArgsText leaf types) (moreArgsText image types)
  | [], _ => .empty
  | type :: rest, tickless => by
      obtain ⟨inType, inRest⟩ := List.forall_mem_append.mp tickless
      have comma : Unmarks ", " ", " := .of_tickless (by decide)
      exact (comma.append (unmarks_text each .whole type inType)).append (unmarks_moreArgsText each rest inRest)

theorem unmarks_fieldsText (each : ∀ v, Unmarks (leaf v) (image v)) :
    ∀ fields : List (String × Ty Var),
    (∀ name ∈ namesFields fields, '\'' ∉ name.toList) →
      Unmarks (fieldsText leaf fields) (fieldsText image fields)
  | [], _ => .empty
  | [(label, type)], tickless => by
      obtain ⟨inLabel, inField⟩ := List.forall_mem_cons.mp tickless
      have blank : Unmarks " " " " := .of_tickless (by decide)
      have colon : Unmarks " : " " : " := .of_tickless (by decide)
      exact ((blank.append (.of_tickless inLabel)).append colon).append
        (unmarks_text each .whole type (List.forall_mem_append.mp inField).1)
  | (label, type) :: next :: rest, tickless => by
      obtain ⟨inLabel, inFields⟩ := List.forall_mem_cons.mp tickless
      obtain ⟨inType, inRest⟩ := List.forall_mem_append.mp inFields
      have blank : Unmarks " " " " := .of_tickless (by decide)
      have colon : Unmarks " : " " : " := .of_tickless (by decide)
      have semicolon : Unmarks ";" ";" := .of_tickless (by decide)
      have field := ((blank.append (.of_tickless inLabel)).append colon).append
        (unmarks_text each .whole type inType)
      exact (field.append semicolon).append (unmarks_fieldsText each (next :: rest) inRest)

theorem unmarks_commandText (each : ∀ v, Unmarks (leaf v) (image v)) :
    ∀ args : List (ArgMode × Ty Var),
    (∀ name ∈ namesArgs args, '\'' ∉ name.toList) →
      Unmarks (commandText leaf args) (commandText image args)
  | [], _ => .empty
  | [(mode, type)], tickless =>
      (unmarks_text each .whole type (List.forall_mem_append.mp tickless).1).append
        (.of_tickless (tickless_arg mode))
  | (mode, type) :: next :: rest, tickless => by
      obtain ⟨inType, inRest⟩ := List.forall_mem_append.mp tickless
      have semicolon : Unmarks "; " "; " := .of_tickless (by decide)
      have arg := (unmarks_text each .whole type inType).append (.of_tickless (tickless_arg mode))
      exact (arg.append semicolon).append (unmarks_commandText each (next :: rest) inRest)

end

end Text

end Ty

end TypedMatch
