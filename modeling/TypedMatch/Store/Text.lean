import TypedMatch.Store.Links
import TypedMatch.Ty.Face
import TypedMatch.Ty.Lemmas

/-!
# Types and schemes of a store as text

Variables are named in the order in which the text first shows them, so that two types which differ
only in the identity of their variables are written alike.  In a scheme, a variable that the scheme
does not own is marked as weak; a variable that comes in through a link is written as in any other
type.
-/

set_option autoImplicit false

namespace TypedMatch

structure ShownVar where
  var : SchemeVar
  /-- Whether the variable is marked as one that a scheme does not own. -/
  weak : Bool
deriving DecidableEq, Repr, Inhabited

namespace ShownVar

def mark (shown : ShownVar) : String := if shown.weak then "'_" else "'"

/-- The name of the variable at a position: a letter, and from the second round on the number of the
round. -/
def name (position : Nat) : String :=
  let letter := String.singleton (Char.ofNat ('a'.toNat + position % 26))
  if position < 26 then letter else letter ++ toString (position / 26)

end ShownVar

/-- The text of a type whose variables are named in the order in which they are first shown. -/
def Ty.named (type : Ty ShownVar) : String :=
  let vars := (type.shown.map ShownVar.var).eraseDups
  type.text (fun shown => shown.mark ++ ShownVar.name (vars.idxOf shown.var)) .whole

namespace Ty

theorem named_face (type : Ty ShownVar) : type.face.named = type.named := by
  simp only [named, shown_face, text_face]

theorem face_map {Var NewVar : Type} (rename : Var → NewVar) (type : Ty Var) :
    (type.map rename).face = type.face.map rename := by
  simp only [map, face_bind, face]

end Ty

namespace Store

/-! ## Faces

A type and its face have the same text, so links are followed only where the text shows them.  What a
synonym stands for may be huge, and the text of the synonym does not depend on it. -/

def faceVar (store : Store) : Nat → MetaVar → Ty MetaVar
  | 0, v => .var v
  | fuel + 1, v =>
      match store.cells.get? v with
      | some (.linked target) => target.face.bind (store.faceVar fuel)
      | _ => .var v

def faceOf (store : Store) (var : MetaVar) : Ty MetaVar := store.faceVar store.cells.size var

def face (store : Store) (type : Ty MetaVar) : Ty MetaVar := type.face.bind store.faceOf

theorem face_zonkVar (store : Store) (fuel : Nat) (var : MetaVar) :
    (store.zonkVar fuel var).face = store.faceVar fuel var := by
  induction fuel generalizing var with
  | zero => rfl
  | succ fuel inductionHypothesis =>
      cases found : store.cells.get? var with
      | none => simp only [zonkVar, faceVar, found, Ty.face]
      | some cell =>
          cases cell with
          | free record => simp only [zonkVar, faceVar, found, Ty.face]
          | linked target =>
              simp only [zonkVar, faceVar, found, Ty.face_bind]
              exact Ty.bind_congr _ fun v _ => inductionHypothesis v

theorem face_target (store : Store) (var : MetaVar) :
    (store.target var).face = store.faceOf var :=
  store.face_zonkVar store.cells.size var

/-- What a text shows of a type is the face of the type with all its links followed. -/
theorem face_zonk (store : Store) (type : Ty MetaVar) :
    (store.zonk type).face = store.face type := by
  unfold zonk face
  rw [Ty.face_bind]
  exact Ty.bind_congr _ fun v _ => store.face_target v

/-! ## Texts -/

/-- The text of a type whose links have been followed, if all its variables that show are free. -/
def textOf (store : Store) (type : Ty ShownVar) : Except Fault String := do
  store.settle (type.shown.filterMap fun shown => shown.var.free?)
  return type.named

theorem textOf_face (store : Store) (type : Ty ShownVar) :
    store.textOf type.face = store.textOf type := by
  simp only [textOf, Ty.shown_face, Ty.named_face]

def typeText (store : Store) (type : Ty MetaVar) : Except Fault String :=
  store.textOf ((store.face type).map fun v => ⟨.free v, false⟩)

theorem typeText_eq_textOf_zonk (store : Store) (type : Ty MetaVar) :
    store.typeText type = store.textOf ((store.zonk type).map fun v => ⟨.free v, false⟩) := by
  rw [← textOf_face _ ((store.zonk type).map _), Ty.face_map, face_zonk, typeText]

/-- What stands for a variable in the text of a scheme, given what the links of free variables lead
to.  Only a variable that is not linked is marked. -/
def standIn (store : Store) (follow : MetaVar → Ty MetaVar) : SchemeVar → Ty ShownVar
  | .bound v => .var ⟨.bound v, false⟩
  | .free v =>
      match store.cells.get? v with
      | some (.linked _) => (follow v).map fun w => ⟨.free w, false⟩
      | _ => .var ⟨.free v, true⟩

theorem face_standIn (store : Store) (v : SchemeVar) :
    (store.standIn store.target v).face = store.standIn store.faceOf v := by
  cases v with
  | bound v => rfl
  | free v =>
      cases found : store.cells.get? v with
      | none => simp only [standIn, found, Ty.face]
      | some cell =>
          cases cell with
          | free record => simp only [standIn, found, Ty.face]
          | linked target => simp only [standIn, found, Ty.face_map, face_target]

def schemeText (store : Store) (scheme : Scheme) : Except Fault String :=
  store.textOf (scheme.body.face.bind (store.standIn store.faceOf))

theorem schemeText_eq_textOf_bind (store : Store) (scheme : Scheme) :
    store.schemeText scheme = store.textOf (scheme.body.bind (store.standIn store.target)) := by
  rw [← textOf_face _ (scheme.body.bind _), Ty.face_bind, schemeText]
  exact congrArg store.textOf (Ty.bind_congr _ fun v _ => (store.face_standIn v).symm)

end Store

end TypedMatch
