import TypedMatch.Ty.Text

/-!
# The face of a type

The face of a type is what its text can show of it: a synonym is no more than its name with its
arguments, as if it were a declared type, and what it stands for is gone.  A type and its face have
the same text, and of a substitution the face sees only the faces of the types put in.
-/

set_option autoImplicit false

namespace TypedMatch.Ty

variable {Var NewVar : Type}

mutual

def face : Ty Var → Ty Var
  | base b => .base b
  | var v => .var v
  | arrow optional domain codomain => .arrow (faceList optional) domain.face codomain.face
  | list element => .list element.face
  | ref content => .ref content.face
  | product components => .product (faceList components)
  | data con args => .data con (faceList args)
  | synonym con args _ => .data con (faceList args)
  | record fields => .record (faceFields fields)
  | command mode args => .command mode (faceArgs args)

def faceList : List (Ty Var) → List (Ty Var)
  | [] => []
  | type :: rest => type.face :: faceList rest

def faceFields : List (String × Ty Var) → List (String × Ty Var)
  | [] => []
  | (label, type) :: rest => (label, type.face) :: faceFields rest

def faceArgs : List (ArgMode × Ty Var) → List (ArgMode × Ty Var)
  | [] => []
  | (mode, type) :: rest => (mode, type.face) :: faceArgs rest

end

mutual

theorem leaves_face : ∀ type : Ty Var, type.face.leaves = type.shown
  | .base _ => rfl
  | .var _ => rfl
  | .arrow optional domain codomain => by
      simp only [face, leaves, shown, leavesList_faceList optional, leaves_face domain,
        leaves_face codomain]
  | .list element => by simp only [face, leaves, shown, leaves_face element]
  | .ref content => by simp only [face, leaves, shown, leaves_face content]
  | .product components => by simp only [face, leaves, shown, leavesList_faceList components]
  | .data _ args => by simp only [face, leaves, shown, leavesList_faceList args]
  | .synonym _ args _ => by simp only [face, leaves, shown, leavesList_faceList args]
  | .record fields => by simp only [face, leaves, shown, leavesFields_faceFields fields]
  | .command _ args => by simp only [face, leaves, shown, leavesArgs_faceArgs args]

theorem leavesList_faceList : ∀ types : List (Ty Var), leavesList (faceList types) = shownList types
  | [] => rfl
  | type :: rest => by
      simp only [faceList, leavesList, shownList, leaves_face type, leavesList_faceList rest]

theorem leavesFields_faceFields :
    ∀ fields : List (String × Ty Var), leavesFields (faceFields fields) = shownFields fields
  | [] => rfl
  | (_, type) :: rest => by
      simp only [faceFields, leavesFields, shownFields, leaves_face type,
        leavesFields_faceFields rest]

theorem leavesArgs_faceArgs :
    ∀ args : List (ArgMode × Ty Var), leavesArgs (faceArgs args) = shownArgs args
  | [] => rfl
  | (_, type) :: rest => by
      simp only [faceArgs, leavesArgs, shownArgs, leaves_face type, leavesArgs_faceArgs rest]

end

mutual

/-- A text shows no variables but those of the type, in the same order.  What only the expansion of a synonym
mentions is left out. -/
theorem shown_sublist : ∀ type : Ty Var, type.shown.Sublist type.leaves
  | .base _ => .refl _
  | .var _ => .refl _
  | .arrow optional domain codomain =>
      ((shownList_sublist optional).append (shown_sublist domain)).append (shown_sublist codomain)
  | .list element => shown_sublist element
  | .ref content => shown_sublist content
  | .product components => shownList_sublist components
  | .data _ args => shownList_sublist args
  | .synonym _ args _ => (shownList_sublist args).trans (List.sublist_append_left _ _)
  | .record fields => shownFields_sublist fields
  | .command _ args => shownArgs_sublist args

theorem shownList_sublist : ∀ types : List (Ty Var), (shownList types).Sublist (leavesList types)
  | [] => .refl _
  | type :: rest => (shown_sublist type).append (shownList_sublist rest)

theorem shownFields_sublist :
    ∀ fields : List (String × Ty Var), (shownFields fields).Sublist (leavesFields fields)
  | [] => .refl _
  | (_, type) :: rest => (shown_sublist type).append (shownFields_sublist rest)

theorem shownArgs_sublist :
    ∀ args : List (ArgMode × Ty Var), (shownArgs args).Sublist (leavesArgs args)
  | [] => .refl _
  | (_, type) :: rest => (shown_sublist type).append (shownArgs_sublist rest)

end

mutual

theorem face_bind (replace : Var → Ty NewVar) :
    ∀ type : Ty Var, (type.bind replace).face = type.face.bind fun v => (replace v).face
  | .base _ => rfl
  | .var _ => rfl
  | .arrow optional domain codomain => by
      simp only [bind, face, faceList_bindList replace optional, face_bind replace domain,
        face_bind replace codomain]
  | .list element => by simp only [bind, face, face_bind replace element]
  | .ref content => by simp only [bind, face, face_bind replace content]
  | .product components => by simp only [bind, face, faceList_bindList replace components]
  | .data _ args => by simp only [bind, face, faceList_bindList replace args]
  | .synonym _ args _ => by simp only [bind, face, faceList_bindList replace args]
  | .record fields => by simp only [bind, face, faceFields_bindFields replace fields]
  | .command _ args => by simp only [bind, face, faceArgs_bindArgs replace args]

theorem faceList_bindList (replace : Var → Ty NewVar) :
    ∀ types : List (Ty Var),
      faceList (bindList replace types) = bindList (fun v => (replace v).face) (faceList types)
  | [] => rfl
  | type :: rest => by
      simp only [bindList, faceList, face_bind replace type, faceList_bindList replace rest]

theorem faceFields_bindFields (replace : Var → Ty NewVar) :
    ∀ fields : List (String × Ty Var),
      faceFields (bindFields replace fields)
        = bindFields (fun v => (replace v).face) (faceFields fields)
  | [] => rfl
  | (_, type) :: rest => by
      simp only [bindFields, faceFields, face_bind replace type,
        faceFields_bindFields replace rest]

theorem faceArgs_bindArgs (replace : Var → Ty NewVar) :
    ∀ args : List (ArgMode × Ty Var),
      faceArgs (bindArgs replace args) = bindArgs (fun v => (replace v).face) (faceArgs args)
  | [] => rfl
  | (_, type) :: rest => by
      simp only [bindArgs, faceArgs, face_bind replace type, faceArgs_bindArgs replace rest]

end

mutual

theorem face_face : ∀ type : Ty Var, type.face.face = type.face
  | .base _ => rfl
  | .var _ => rfl
  | .arrow optional domain codomain => by
      simp only [face, faceList_faceList optional, face_face domain, face_face codomain]
  | .list element => by simp only [face, face_face element]
  | .ref content => by simp only [face, face_face content]
  | .product components => by simp only [face, faceList_faceList components]
  | .data _ args => by simp only [face, faceList_faceList args]
  | .synonym _ args _ => by simp only [face, faceList_faceList args]
  | .record fields => by simp only [face, faceFields_faceFields fields]
  | .command _ args => by simp only [face, faceArgs_faceArgs args]

theorem faceList_faceList : ∀ types : List (Ty Var), faceList (faceList types) = faceList types
  | [] => rfl
  | type :: rest => by simp only [faceList, face_face type, faceList_faceList rest]

theorem faceFields_faceFields :
    ∀ fields : List (String × Ty Var), faceFields (faceFields fields) = faceFields fields
  | [] => rfl
  | (_, type) :: rest => by simp only [faceFields, face_face type, faceFields_faceFields rest]

theorem faceArgs_faceArgs :
    ∀ args : List (ArgMode × Ty Var), faceArgs (faceArgs args) = faceArgs args
  | [] => rfl
  | (_, type) :: rest => by simp only [faceArgs, face_face type, faceArgs_faceArgs rest]

end

theorem shown_face (type : Ty Var) : type.face.shown = type.shown := by
  rw [← leaves_face type.face, face_face, leaves_face]

section Text

variable (leaf : Var → String)

mutual

theorem text_face (place : Place) : ∀ type : Ty Var, type.face.text leaf place = type.text leaf place
  | .base _ => rfl
  | .var _ => rfl
  | .arrow optional domain codomain => by
      simp only [face, text, optionalText_faceList optional, text_face .operand domain,
        text_face .whole codomain]
  | .list element => by simp only [face, text, text_face .atom element]
  | .ref content => by simp only [face, text, text_face .atom content]
  | .product components => by simp only [face, text, productText_faceList components]
  | .data _ args => by simp only [face, text, argsText_faceList args]
  | .synonym _ args _ => by simp only [face, text, argsText_faceList args]
  | .record fields => by simp only [face, text, fieldsText_faceFields fields]
  | .command _ args => by simp only [face, text, commandText_faceArgs args]

theorem optionalText_faceList :
    ∀ types : List (Ty Var), optionalText leaf (faceList types) = optionalText leaf types
  | [] => rfl
  | type :: rest => by
      simp only [faceList, optionalText, text_face .operand type, optionalText_faceList rest]

theorem productText_faceList :
    ∀ types : List (Ty Var), productText leaf (faceList types) = productText leaf types
  | [] => rfl
  | [type] => by simp only [faceList, productText, text_face .atom type]
  | type :: next :: rest => by
      have later := productText_faceList (next :: rest)
      simp only [faceList] at later
      simp only [faceList, productText, text_face .atom type, later]

theorem argsText_faceList :
    ∀ types : List (Ty Var), argsText leaf (faceList types) = argsText leaf types
  | [] => rfl
  | [type] => by simp only [faceList, argsText, text_face .atom type]
  | type :: next :: rest => by
      have later := moreArgsText_faceList (next :: rest)
      simp only [faceList] at later
      simp only [faceList, argsText, text_face .whole type, later]

theorem moreArgsText_faceList :
    ∀ types : List (Ty Var), moreArgsText leaf (faceList types) = moreArgsText leaf types
  | [] => rfl
  | type :: rest => by
      simp only [faceList, moreArgsText, text_face .whole type, moreArgsText_faceList rest]

theorem fieldsText_faceFields :
    ∀ fields : List (String × Ty Var), fieldsText leaf (faceFields fields) = fieldsText leaf fields
  | [] => rfl
  | [(_, type)] => by simp only [faceFields, fieldsText, text_face .whole type]
  | (_, type) :: (label, next) :: rest => by
      have later := fieldsText_faceFields ((label, next) :: rest)
      simp only [faceFields] at later
      simp only [faceFields, fieldsText, text_face .whole type, later]

theorem commandText_faceArgs :
    ∀ args : List (ArgMode × Ty Var), commandText leaf (faceArgs args) = commandText leaf args
  | [] => rfl
  | [(_, type)] => by simp only [faceArgs, commandText, text_face .whole type]
  | (_, type) :: (mode, next) :: rest => by
      have later := commandText_faceArgs ((mode, next) :: rest)
      simp only [faceArgs] at later
      simp only [faceArgs, commandText, text_face .whole type, later]

end

end Text

end TypedMatch.Ty
