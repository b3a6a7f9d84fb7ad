/-!
# Diagnostics

A diagnostic points at a stretch of the source, says in one line what is the matter there, and lists
the single findings as notes.  Everything this library reports is a warning: it never keeps a
program from being compiled.
-/

set_option autoImplicit false

namespace TypedMatch

/-- A stretch of the source, from its first offset up to the one after its last. -/
structure Span where
  start : Nat
  stop : Nat
deriving DecidableEq, Repr, Inhabited

def Span.text (span : Span) : String := toString span.start ++ ".." ++ toString span.stop

inductive Severity where
  | warning
deriving DecidableEq, Repr, Inhabited

def Severity.text : Severity → String
  | warning => "warning"

def Severity.title : Severity → String
  | warning => "Warning"

structure Diagnostic where
  severity : Severity
  message : String
  span : Span
  notes : List String
  help : Option String
  /-- The name under which the matter is documented. -/
  code : Option String
deriving DecidableEq, Repr, Inhabited

def Diagnostic.text (diagnostic : Diagnostic) : String :=
  let code := match diagnostic.code with
    | some code => " [" ++ code ++ "]"
    | none => ""
  let notes := String.join (diagnostic.notes.map fun note => "\n  " ++ note)
  let help := match diagnostic.help with
    | some help => "\nhelp: " ++ help
    | none => ""
  diagnostic.severity.text ++ " at " ++ diagnostic.span.text ++ ": " ++ diagnostic.message
    ++ code ++ notes ++ help

end TypedMatch
