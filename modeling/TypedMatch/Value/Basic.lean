/-!
# Values

The values that a match takes apart.  A constructor without arguments carries the unit value, as its
pattern does.  Values of types that no pattern can look into are told apart by a mark, which no
pattern asks for: only wildcards and names accept them.
-/

set_option autoImplicit false

namespace TypedMatch

inductive Value where
  | unit
  | bool (value : Bool)
  | int (value : Int)
  | str (value : String)
  | nil
  | cons (head tail : Value)
  | tuple (components : List Value)
  | ctor (name : String) (payload : Value)
  /-- A value that no pattern can look into. -/
  | sealed (mark : Nat)
deriving Repr, Inhabited

end TypedMatch
