import TypedMatch.Coverage.Heads
import TypedMatch.Coverage.Row

/-!
# Covering slots by rows

A match is checked slot by slot, and at first there is one slot, the value that is matched.  A slot
is either skipped, when no row asks anything of it, or taken apart by the heads of its type, when the
parts of each head become slots of their own.  Where the slots are used up, the rows that are left are
the branches that match.  A hole is a way through the slots on which no branch, or none without a
guard, is left.

Taking a slot apart may add slots, but every head takes something away from what the rows ask for;
skipping takes a slot away and leaves that as it is.  So the work ends, however types refer to
themselves.
-/

set_option autoImplicit false

namespace TypedMatch

/-- How a match fails to handle a value. -/
inductive HoleKind where
  /-- No branch matches the value. -/
  | unmatched
  /-- Branches match the value, but all of them have a guard. -/
  | guardedOnly
deriving DecidableEq, Repr, Inhabited

/-- A way through the slots that leads to no branch, with one witness for every slot. -/
structure Hole where
  kind : HoleKind
  witnesses : List Witness
deriving DecidableEq, Repr, Inhabited

namespace Hole

def skip (hole : Hole) : Hole := { hole with witnesses := .wildcard :: hole.witnesses }

def fold {Var : Type} (head : Head Var) (hole : Hole) : Hole :=
  { hole with
    witnesses :=
      head.rebuild (hole.witnesses.take head.arity) :: hole.witnesses.drop head.arity }

end Hole

/-- What has been found out about rows: their holes, and the branches that some value reaches. -/
structure Findings where
  holes : List Hole
  reached : List Nat
deriving DecidableEq, Repr, Inhabited

namespace Findings

def none : Findings := ⟨[], []⟩

def append (first second : Findings) : Findings :=
  ⟨first.holes ++ second.holes, first.reached ++ second.reached⟩

def mapHoles (change : Hole → Hole) (findings : Findings) : Findings :=
  { findings with holes := findings.holes.map change }

def unmatched (slots : List (Ty MetaVar)) : Findings :=
  ⟨[⟨.unmatched, slots.map fun _ => .wildcard⟩], []⟩

/-- Where no slot is left, the first row without a guard takes every value, and guarded rows before
it may. -/
def ofRows (rows : List Row) : Findings :=
  match rows.span (·.guarded) with
  | ([], []) => .unmatched []
  | (guarded, []) => ⟨[⟨.guardedOnly, []⟩], guarded.map (·.branch)⟩
  | (guarded, taker :: _) => ⟨[], guarded.map (·.branch) ++ [taker.branch]⟩

end Findings

mutual

def cover (env : Environment) (level : Level) (store : Store) (rows : List Row)
    (slots : List (Ty MetaVar)) : Except Fault (Findings × Store) :=
  match slots with
  | [] => .ok (.ofRows rows, store)
  | slot :: rest =>
      if rows.isEmpty then
        .ok (.unmatched slots, store)
      else if skips : rows.all Row.skips = true then do
        let (findings, grown) ← cover env level store (rows.map Row.tail) rest
        return (findings.mapHoles Hole.skip, grown)
      else do
        let (heads, grown) ← env.heads level store slot (column rows)
        coverHeads env level grown rows rest heads (by simpa using skips)
termination_by (openNodes rows, slots.length + 1, 0)
decreasing_by
  · rw [openNodes_map_tail skips]
    exact .right _ (.left _ _ (by simp))
  · exact .right _ (.left _ _ (by simp))

def coverHeads (env : Environment) (level : Level) (store : Store) (rows : List Row)
    (rest : List (Ty MetaVar)) (heads : List (Head MetaVar)) (asks : rows.all Row.skips = false) :
    Except Fault (Findings × Store) :=
  match heads with
  | [] => .ok (.none, store)
  | head :: more => do
      let (inner, grown) ← cover env level store (keptRows head rows) (head.slots ++ rest)
      let (others, last) ← coverHeads env level grown rows rest more asks
      return ((inner.mapHoles (Hole.fold head)).append others, last)
termination_by (openNodes rows, 0, heads.length)
decreasing_by
  · exact .left _ _ (openNodes_keptRows_lt head asks)
  · exact .right _ (.right _ (by simp))

end

end TypedMatch
