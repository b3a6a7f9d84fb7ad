import TypedMatch.Ident
import TypedMatch.Pattern.Basic

/-!
# Faults

What can go wrong on input that no type checker lets through.  A fault ends the work at hand; it is
a value like any other, so that theorems can say when each one arises.
-/

set_option autoImplicit false

namespace TypedMatch

inductive Fault where
  /-- A variable without a cell was asked for. -/
  | unknownVar (var : MetaVar)
  /-- A template was applied to the wrong number of types. -/
  | argumentCount (expected given : Nat)
  | shortProduct
  | noParameter (count index : Nat)
  | emptyTuple
  /-- A tuple pattern whose chain ends in something else. -/
  | unterminatedTuple (found : Pattern)
  /-- A tuple pattern against a product of another length. -/
  | tupleLength (components patterns : Nat)
  | undefinedAlias (con : TyCon)
  /-- A declared type without constructors to list. -/
  | notVariant (con : TyCon)
  | unknownConstructor (name : String) (con : TyCon)
  /-- A pattern against a type that only wildcards can match. -/
  | noHeads (type : String)
  /-- A branch whose number is not representable when branches are counted from one. -/
  | numberOverflow
  /-- Links or aliases that lead back to themselves. -/
  | endless
deriving DecidableEq, Repr, Inhabited

def Fault.message : Fault → String
  | unknownVar var =>
      "type variable FreeId(" ++ toString var.number ++ ") does not belong to this context"
  | argumentCount expected given =>
      "expected " ++ toString expected ++ " type arguments, got " ++ toString given
  | shortProduct => "product types have at least two components"
  | noParameter count index =>
      "index out of bounds: the len is " ++ toString count ++ " but the index is " ++ toString index
  | emptyTuple => "empty tuple pattern"
  | unterminatedTuple found => "unterminated tuple pattern: " ++ found.spell
  | tupleLength components patterns =>
      "assertion `left == right` failed: tuple pattern does not match the arity of its type\n"
        ++ "  left: " ++ toString components ++ "\n right: " ++ toString patterns
  | undefinedAlias con => "alias `" ++ con.name ++ "` has no definition"
  | notVariant con => "type `" ++ con.name ++ "` is not a declared variant"
  | unknownConstructor name con =>
      "constructor `" ++ name ++ "` is not declared by type `" ++ con.name ++ "`"
  | noHeads type => "pattern against type `" ++ type ++ "` which has no signature"
  | numberOverflow => "attempt to add with overflow"
  | endless => "links or aliases lead back to themselves"

theorem ok_of_bind {Error Value Result : Type} {step : Except Error Value}
    {next : Value → Except Error Result} {result : Result} (run : step >>= next = .ok result) :
    ∃ value, step = .ok value ∧ next value = .ok result := by
  cases step with
  | error fault => cases run
  | ok value => exact ⟨value, rfl, run⟩

/-- Whether work that does not succeed is stopped by one of the faults that are expected of it. -/
def FailsBy {Value : Type} (expected : Fault → Prop) : Except Fault Value → Prop
  | .ok _ => True
  | .error fault => expected fault

namespace FailsBy

variable {Value Result : Type} {expected others : Fault → Prop} {step : Except Fault Value}

theorem ok (value : Value) : FailsBy expected (.ok value) := trivial

theorem of_error {fault : Fault} (failsBy : FailsBy expected step) (fails : step = .error fault) :
    expected fault := by
  rw [fails] at failsBy
  exact failsBy

theorem imp (failsBy : FailsBy expected step) (weaker : ∀ fault, expected fault → others fault) :
    FailsBy others step := by
  cases step with
  | error fault => exact weaker fault failsBy
  | ok value => trivial

theorem bind {next : Value → Except Fault Result} (first : FailsBy expected step)
    (second : ∀ value, FailsBy expected (next value)) : FailsBy expected (step >>= next) := by
  cases step with
  | error fault => exact first
  | ok value => exact second value

end FailsBy

end TypedMatch
