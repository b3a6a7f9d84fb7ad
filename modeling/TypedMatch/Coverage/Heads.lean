import TypedMatch.Coverage.Head
import TypedMatch.Declaration.Environment
import TypedMatch.Store.Text

/-!
# The heads of a type

Every value of a type has one of the heads listed here, and no value has two of them.  The list
depends on the column of shapes at hand only through the literals mentioned there.  Types whose
values have no visible form have no list of heads; a column that asks something of them is at fault,
and so is one with a constructor that the type does not have or with a tuple of another length.
-/

set_option autoImplicit false

namespace TypedMatch

def strangeCtor? (constructors : List Constructor) (column : List Shape) : Option String :=
  (column.filterMap Shape.ctor?).find? fun name => !(constructors.map (·.name)).contains name

def strangeLength? (length : Nat) (column : List Shape) : Option Nat :=
  (column.filterMap Shape.tupleLength?).find? fun other => other != length

def constructorHeads (level : Level) (args : List (Ty MetaVar)) :
    Store → List Constructor → Except Fault (List (Head MetaVar) × Store)
  | store, [] => .ok ([], store)
  | store, constructor :: rest => do
      let (payload, grown) ← store.apply level .allowed constructor.payload args
      let root ← grown.unfold payload
      let head : Head MetaVar :=
        match root with
        | .base .unit => .constant constructor.name
        | _ => .applied constructor.name payload
      let (heads, last) ← constructorHeads level args grown rest
      return (head :: heads, last)

/-- The heads of the values of a type, for a column that asks for something. -/
def Environment.heads (env : Environment) (level : Level) (store : Store) (type : Ty MetaVar)
    (column : List Shape) : Except Fault (List (Head MetaVar) × Store) := do
  let (root, grown) ← env.expand level store type
  match root with
  | .base .unit => return ([.unit], grown)
  | .base .bool => return ([.bool true, .bool false], grown)
  | .base .int =>
      let listed := (column.filterMap Shape.int?).eraseDups
      return (listed.map .int ++ [.intBesides listed], grown)
  | .base .string =>
      let listed := (column.filterMap Shape.str?).eraseDups
      return (listed.map .str ++ [.strBesides listed], grown)
  | .list element => return ([.cons element, .nil], grown)
  | .product components =>
      match strangeLength? components.length column with
      | some length => throw (.tupleLength components.length length)
      | none => return ([.tuple components], grown)
  | .data con args =>
      match env.constructors? con with
      | none => throw (.notVariant con)
      | some constructors =>
          match strangeCtor? constructors column with
          | some name => throw (.unknownConstructor name con)
          | none => constructorHeads level args grown constructors
  | other =>
      let text ← grown.typeText other
      throw (.noHeads text)

end TypedMatch
