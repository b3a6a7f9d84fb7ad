import TypedMatch.Text.Quoted

/-!
# Patterns

The patterns of a match as a programmer writes them, with their bindings.  A tuple pattern is a
chain of components, and nothing here prevents a chain from ending in the wrong way: that is for
whoever reads the chain to find out.
-/

set_option autoImplicit false

namespace TypedMatch

inductive Pattern where
  | wildcard
  | unit
  | bool (value : Bool)
  | int (value : Int)
  | str (value : String)
  | nil
  | cons (head tail : Pattern)
  /-- One component of a tuple, and the chain of the others. -/
  | chain (first rest : Pattern)
  | chainEnd
  | var (name : String)
  /-- A pattern whose value is bound to a name as a whole. -/
  | binding (name : String) (pattern : Pattern)
  | ctor (name : String) (payload : Pattern)
deriving DecidableEq, Repr, Inhabited

namespace Pattern

/-- A constructor without arguments stands for one applied to the unit value. -/
def constant (name : String) : Pattern := .ctor name .unit

def ofList (items : List Pattern) : Pattern := items.foldr .cons .nil

def ofTuple (components : List Pattern) : Pattern := components.foldr .chain .chainEnd

def spell : Pattern → String
  | wildcard => "Wildcard"
  | unit => "Unit"
  | bool value => "Bool(" ++ toString value ++ ")"
  | int value => "Int(" ++ toString value ++ ")"
  | str value => "Str(" ++ Text.quoted value ++ ")"
  | nil => "EndOfList"
  | cons head tail => "ListCons(" ++ head.spell ++ ", " ++ tail.spell ++ ")"
  | chain first rest => "TupleCons(" ++ first.spell ++ ", " ++ rest.spell ++ ")"
  | chainEnd => "EndOfTuple"
  | var name => "Variable(" ++ Text.quoted name ++ ")"
  | binding name pattern => "As(" ++ Text.quoted name ++ ", " ++ pattern.spell ++ ")"
  | ctor name payload => "Constructor(" ++ Text.quoted name ++ ", " ++ payload.spell ++ ")"

end Pattern

/-- One branch of a match: its pattern, and whether a guard must also hold. -/
structure Branch where
  pattern : Pattern
  guarded : Bool
deriving DecidableEq, Repr, Inhabited

end TypedMatch
