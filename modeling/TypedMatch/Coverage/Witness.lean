import TypedMatch.Text.Quoted

/-!
# Witnesses

A witness sketches the values that a match fails to handle: a wildcard stands for any value, and the
rest of a witness for itself.  Written out, a list cell needs parentheses only as the head of another
one, and a tuple that is the payload of a constructor shares the constructor's parentheses.
-/

set_option autoImplicit false

namespace TypedMatch

inductive Witness where
  | wildcard
  | unit
  | bool (value : Bool)
  | int (value : Int)
  | str (value : String)
  | nil
  | cons (head tail : Witness)
  | tuple (components : List Witness)
  | constant (name : String)
  | applied (name : String) (payload : Witness)
deriving Repr, Inhabited

namespace Witness

/-! ## Equality -/

mutual

def same : Witness → Witness → Bool
  | wildcard, wildcard => true
  | unit, unit => true
  | bool value, bool value' => value == value'
  | int value, int value' => value == value'
  | str value, str value' => value == value'
  | nil, nil => true
  | cons head tail, cons head' tail' => head.same head' && tail.same tail'
  | tuple components, tuple components' => sameList components components'
  | constant name, constant name' => name == name'
  | applied name payload, applied name' payload' => name == name' && payload.same payload'
  | _, _ => false
termination_by structural left => left

def sameList : List Witness → List Witness → Bool
  | [], [] => true
  | witness :: rest, witness' :: rest' => witness.same witness' && sameList rest rest'
  | _, _ => false

end

mutual

theorem same_iff : ∀ left right : Witness, left.same right = true ↔ left = right
  | .wildcard, right => by cases right <;> simp [same]
  | .unit, right => by cases right <;> simp [same]
  | .bool _, right => by cases right <;> simp [same]
  | .int _, right => by cases right <;> simp [same]
  | .str _, right => by cases right <;> simp [same]
  | .nil, right => by cases right <;> simp [same]
  | .cons head tail, right => by
      cases right <;> simp [same, same_iff head, same_iff tail]
  | .tuple components, right => by
      cases right <;> simp [same, sameList_iff components]
  | .constant _, right => by cases right <;> simp [same]
  | .applied _ payload, right => by
      cases right <;> simp [same, same_iff payload]

theorem sameList_iff : ∀ left right : List Witness, sameList left right = true ↔ left = right
  | [], right => by cases right <;> simp [sameList]
  | witness :: rest, right => by
      cases right <;> simp [sameList, same_iff witness, sameList_iff rest]

end

instance : DecidableEq Witness := fun left right =>
  decidable_of_iff (left.same right = true) (same_iff left right)

/-! ## Text -/

def isCons : Witness → Bool
  | cons _ _ => true
  | _ => false

mutual

def text : Witness → String
  | wildcard => "_"
  | unit => "()"
  | bool value => toString value
  | int value => toString value
  | str value => Text.quoted value
  | nil => "[]"
  | cons head tail =>
      (if head.isCons then "(" ++ head.text ++ ")" else head.text) ++ " :: " ++ tail.text
  | tuple components => "(" ++ textList components ++ ")"
  | constant name => name
  | applied name (.tuple components) => name ++ "(" ++ textList components ++ ")"
  | applied name payload => name ++ "(" ++ payload.text ++ ")"

def textList : List Witness → String
  | [] => ""
  | [witness] => witness.text
  | witness :: rest => witness.text ++ ", " ++ textList rest

end

end Witness

end TypedMatch
