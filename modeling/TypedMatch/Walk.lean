/-!
# Depth-first walks

A walk enters every node that can be reached from its roots once, follows the edges out of a node in
their order, and finishes a node when everything behind it has been entered.  The two orders are all
that a walk leaves behind.  Cycles are harmless: a node that has been entered is not entered again.
-/

set_option autoImplicit false

namespace TypedMatch

/-- The nodes of a walk so far, in the order of entering and in the order of finishing. -/
structure Trail (Node : Type) where
  entered : List Node
  finished : List Node
deriving DecidableEq, Repr, Inhabited

namespace Trail

variable {Node : Type} [DecidableEq Node]

def start : Trail Node := ⟨[], []⟩

def visit (next : Node → List Node) : Nat → Trail Node → Node → Trail Node
  | 0, trail, _ => trail
  | fuel + 1, trail, node =>
      if node ∈ trail.entered then
        trail
      else
        let inner := (next node).foldl (visit next fuel) ⟨trail.entered ++ [node], trail.finished⟩
        ⟨inner.entered, inner.finished ++ [node]⟩

/-- The walk from the given roots.  A path without repetitions has no more nodes than there are
nodes with an edge, and one more, so a depth beyond that number cuts nothing off. -/
def walk (next : Node → List Node) (fuel : Nat) (roots : List Node) : Trail Node :=
  roots.foldl (visit next fuel) start

end Trail

end TypedMatch
