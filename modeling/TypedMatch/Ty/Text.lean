import TypedMatch.Ty.Basic

/-!
# Types as text

The written form of a type whose variables already have a text of their own.  Parentheses stand only
where the type would be read differently without them: around a function anywhere but as a whole,
around a product as the operand of a postfix or of another product.  A synonym shows its name and
its arguments, never what it stands for; `Ty.shown` lists the variables that are written, in order.
-/

set_option autoImplicit false

namespace TypedMatch

inductive Place where
  /-- Alone, or where something else delimits the type. -/
  | whole
  /-- An argument of a function. -/
  | operand
  /-- Before a postfix, or a component of a product. -/
  | atom
deriving DecidableEq, Repr, Inhabited

def parenthesized (needed : Bool) (text : String) : String :=
  if needed then "(" ++ text ++ ")" else text

def CommandMode.text : CommandMode → String
  | inline => "inline-cmd"
  | block => "block-cmd"
  | math => "math-cmd"

def ArgMode.text : ArgMode → String
  | mandatory => ""
  | optional => "?"

namespace Ty

variable {Var : Type}

mutual

def text (leaf : Var → String) (place : Place) : Ty Var → String
  | base b => b.text
  | var v => leaf v
  | arrow optional domain codomain =>
      parenthesized (place != .whole)
        (optionalText leaf optional ++ domain.text leaf .operand ++ " -> "
          ++ codomain.text leaf .whole)
  | list element => element.text leaf .atom ++ " list"
  | ref content => content.text leaf .atom ++ " ref"
  | product components => parenthesized (place == .atom) (productText leaf components)
  | data con args => argsText leaf args ++ con.name
  | synonym con args _ => argsText leaf args ++ con.name
  | record fields => "(|" ++ fieldsText leaf fields ++ " |)"
  | command mode args => "[" ++ commandText leaf args ++ "] " ++ mode.text

def optionalText (leaf : Var → String) : List (Ty Var) → String
  | [] => ""
  | type :: rest => type.text leaf .operand ++ " ?-> " ++ optionalText leaf rest

def productText (leaf : Var → String) : List (Ty Var) → String
  | [] => ""
  | [type] => type.text leaf .atom
  | type :: rest => type.text leaf .atom ++ " * " ++ productText leaf rest

/-- The arguments before the name of a declared type: none, one alone, or several in parentheses. -/
def argsText (leaf : Var → String) : List (Ty Var) → String
  | [] => ""
  | [type] => type.text leaf .atom ++ " "
  | type :: rest => "(" ++ type.text leaf .whole ++ moreArgsText leaf rest ++ ") "

def moreArgsText (leaf : Var → String) : List (Ty Var) → String
  | [] => ""
  | type :: rest => ", " ++ type.text leaf .whole ++ moreArgsText leaf rest

def fieldsText (leaf : Var → String) : List (String × Ty Var) → String
  | [] => ""
  | [(label, type)] => " " ++ label ++ " : " ++ type.text leaf .whole
  | (label, type) :: rest =>
      " " ++ label ++ " : " ++ type.text leaf .whole ++ ";" ++ fieldsText leaf rest

def commandText (leaf : Var → String) : List (ArgMode × Ty Var) → String
  | [] => ""
  | [(mode, type)] => type.text leaf .whole ++ mode.text
  | (mode, type) :: rest =>
      type.text leaf .whole ++ mode.text ++ "; " ++ commandText leaf rest

end

mutual

def shown : Ty Var → List Var
  | base _ => []
  | var v => [v]
  | arrow optional domain codomain => shownList optional ++ domain.shown ++ codomain.shown
  | list element => element.shown
  | ref content => content.shown
  | product components => shownList components
  | data _ args => shownList args
  | synonym _ args _ => shownList args
  | record fields => shownFields fields
  | command _ args => shownArgs args

def shownList : List (Ty Var) → List Var
  | [] => []
  | type :: rest => type.shown ++ shownList rest

def shownFields : List (String × Ty Var) → List Var
  | [] => []
  | (_, type) :: rest => type.shown ++ shownFields rest

def shownArgs : List (ArgMode × Ty Var) → List Var
  | [] => []
  | (_, type) :: rest => type.shown ++ shownArgs rest

end

end Ty

end TypedMatch
