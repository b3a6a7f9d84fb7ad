import TypedMatch.Coverage.Witness
import TypedMatch.Pattern.Shape
import TypedMatch.Ty.Basic

/-!
# Heads

A head is the outermost form of a value: a literal, one of the two kinds of list, a tuple, a
constructor.  Integers and strings have one head for every literal that a match mentions and one more
for all the others.  A head knows the types of the parts behind it, what a shape demands of these
parts, and how a witness is put together from witnesses of the parts.  The main statements say that
a shape demands something of every part, and that it never demands more of the parts than of the
whole.
-/

set_option autoImplicit false

namespace TypedMatch

/-- The outermost form of a value whose parts have types over `Var`. -/
inductive Head (Var : Type) where
  | unit
  | bool (value : Bool)
  | int (value : Int)
  | str (value : String)
  /-- Every integer besides these. -/
  | intBesides (listed : List Int)
  /-- Every string besides these. -/
  | strBesides (listed : List String)
  | nil
  | cons (element : Ty Var)
  | tuple (components : List (Ty Var))
  /-- A constructor whose payload has a unit type and takes no slot. -/
  | constant (name : String)
  | applied (name : String) (payload : Ty Var)
deriving Repr, Inhabited

def leastFree (taken : Nat → Bool) (bound : Nat) : Nat :=
  ((List.range (bound + 1)).find? fun candidate => !taken candidate).getD 0

/-- The least integer from zero on that is not listed.  Of one more number than are listed, one is
free. -/
def sampleInt (listed : List Int) : Int :=
  leastFree (fun candidate => listed.contains (candidate : Int)) listed.length

def crosses (count : Nat) : String := String.ofList (List.replicate count 'x')

def sampleStr (listed : List String) : String :=
  crosses (leastFree (fun candidate => listed.contains (crosses candidate)) listed.length)

namespace Head

variable {Var : Type}

def slots : Head Var → List (Ty Var)
  | cons element => [element, .list element]
  | tuple components => components
  | applied _ payload => [payload]
  | _ => []

def arity : Head Var → Nat
  | cons _ => 2
  | tuple components => components.length
  | applied _ _ => 1
  | _ => 0

/-- What a shape demands of the parts behind a head, or nothing if it accepts no value with this
head. -/
def demands (head : Head Var) : Shape → Option (List Shape)
  | .wildcard => some (List.replicate head.arity .wildcard)
  | .unit => match head with
      | unit => some []
      | _ => none
  | .bool value => match head with
      | bool expected => if expected = value then some [] else none
      | _ => none
  | .int value => match head with
      | int expected => if expected = value then some [] else none
      | _ => none
  | .str value => match head with
      | str expected => if expected = value then some [] else none
      | _ => none
  | .nil => match head with
      | nil => some []
      | _ => none
  | .cons first rest => match head with
      | cons _ => some [first, rest]
      | _ => none
  | .tuple patterns => match head with
      | tuple components => if patterns.length = components.length then some patterns else none
      | _ => none
  | .ctor tag payload => match head with
      | constant name => if name = tag then some [] else none
      | applied name _ => if name = tag then some [payload] else none
      | _ => none

def rebuild (head : Head Var) (parts : List Witness) : Witness :=
  match head, parts with
  | unit, _ => .unit
  | bool value, _ => .bool value
  | int value, _ => .int value
  | str value, _ => .str value
  | intBesides listed, _ => .int (sampleInt listed)
  | strBesides listed, _ => .str (sampleStr listed)
  | nil, _ => .nil
  | cons _, [first, rest] => .cons first rest
  | cons _, _ => .cons .wildcard .wildcard
  | tuple _, parts => .tuple parts
  | constant name, _ => .constant name
  | applied name _, [payload] => .applied name payload
  | applied name _, _ => .applied name .wildcard

theorem length_slots (head : Head Var) : head.slots.length = head.arity := by
  cases head <;> rfl

theorem length_demands {head : Head Var} {shape : Shape} {parts : List Shape}
    (kept : head.demands shape = some parts) : parts.length = head.arity := by
  cases shape <;> cases head <;>
    simp only [demands, Option.some.injEq, Option.ite_none_right_eq_some, reduceCtorEq] at kept <;>
    grind [arity]

theorem nodesList_demands_lt {head : Head Var} {shape : Shape} {parts : List Shape}
    (kept : head.demands shape = some parts) (asks : shape.isBlank = false) :
    Shape.nodesList parts < shape.nodes := by
  cases shape <;> cases head <;>
    simp only [demands, Option.some.injEq, Option.ite_none_right_eq_some, reduceCtorEq,
      Shape.isBlank] at kept asks <;>
    grind [Shape.nodes, Shape.nodesList]

theorem nodesList_demands_le {head : Head Var} {shape : Shape} {parts : List Shape}
    (kept : head.demands shape = some parts) : Shape.nodesList parts ≤ shape.nodes := by
  by_cases blank : shape.isBlank
  · cases shape <;> simp_all only [Shape.isBlank, reduceCtorEq]
    simp only [demands, Option.some.injEq] at kept
    simp [← kept, Shape.nodesList_replicate_wildcard]
  · exact Nat.le_of_lt (nodesList_demands_lt kept (by simpa using blank))

end Head

end TypedMatch
