import TypedMatch.Fault

/-!
# Shapes

The shape of a pattern is what decides which values it matches: names are gone, and a tuple's chain
has become the list of its components.  A chain has to end properly, with one component at least; a
name for the rest of a chain is not a proper end.  `Shape.nodes` counts the places where a shape asks
for something, which is what a check uses up.
-/

set_option autoImplicit false

namespace TypedMatch

inductive Shape where
  | wildcard
  | unit
  | bool (value : Bool)
  | int (value : Int)
  | str (value : String)
  | nil
  | cons (head tail : Shape)
  | tuple (components : List Shape)
  | ctor (name : String) (payload : Shape)
deriving Repr, Inhabited

namespace Shape

mutual

def ofPattern : Pattern → Except Fault Shape
  | .wildcard => .ok .wildcard
  | .var _ => .ok .wildcard
  | .binding _ pattern => ofPattern pattern
  | .unit => .ok .unit
  | .bool value => .ok (.bool value)
  | .int value => .ok (.int value)
  | .str value => .ok (.str value)
  | .nil => .ok .nil
  | .cons head tail => do
      let head ← ofPattern head
      let tail ← ofPattern tail
      return .cons head tail
  | .chain first rest => do
      let first ← ofPattern first
      let rest ← ofChain rest
      return .tuple (first :: rest)
  | .chainEnd => .error .emptyTuple
  | .ctor name payload => do
      let payload ← ofPattern payload
      return .ctor name payload

def ofChain : Pattern → Except Fault (List Shape)
  | .chainEnd => .ok []
  | .chain component next => do
      let component ← ofPattern component
      let rest ← ofChain next
      return component :: rest
  | other => .error (.unterminatedTuple other)

end

/-- Whether a shape asks for nothing at its root. -/
def isBlank : Shape → Bool
  | wildcard => true
  | _ => false

mutual

def nodes : Shape → Nat
  | wildcard => 0
  | unit => 1
  | bool _ => 1
  | int _ => 1
  | str _ => 1
  | nil => 1
  | cons head tail => 1 + head.nodes + tail.nodes
  | tuple components => 1 + nodesList components
  | ctor _ payload => 1 + payload.nodes

def nodesList : List Shape → Nat
  | [] => 0
  | shape :: rest => shape.nodes + nodesList rest

end

theorem nodesList_append (left right : List Shape) :
    nodesList (left ++ right) = nodesList left + nodesList right := by
  induction left with
  | nil => simp [nodesList]
  | cons shape rest inductionHypothesis => simp [nodesList, inductionHypothesis, Nat.add_assoc]

theorem nodesList_replicate_wildcard (count : Nat) :
    nodesList (List.replicate count wildcard) = 0 := by
  induction count with
  | zero => rfl
  | succ count inductionHypothesis =>
      simp [List.replicate_succ, nodesList, nodes, inductionHypothesis]

theorem nodes_eq_zero_of_isBlank {shape : Shape} (blank : shape.isBlank) :
    shape.nodes = 0 := by
  cases shape <;> simp_all [isBlank, nodes]

theorem nodes_pos {shape : Shape} (asks : shape.isBlank = false) : 0 < shape.nodes := by
  cases shape with
  | wildcard => cases asks
  | _ =>
      simp only [nodes]
      omega

def int? : Shape → Option Int
  | int value => some value
  | _ => none

def str? : Shape → Option String
  | str value => some value
  | _ => none

def ctor? : Shape → Option String
  | ctor name _ => some name
  | _ => none

def tupleLength? : Shape → Option Nat
  | tuple components => some components.length
  | _ => none

end Shape

end TypedMatch
