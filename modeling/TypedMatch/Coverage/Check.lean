import TypedMatch.Coverage.Verdict

/-!
# Checking a match

The check takes a match as it stands in a program and says what is wrong with it.  Its only other
effect is on the store, which grows by the variables that payloads and aliases need on the way.
-/

set_option autoImplicit false

namespace TypedMatch

/-- A match: the type of the value that is matched, the branches, and where all this stands. -/
structure Match where
  scrutinee : Ty MetaVar
  branches : List Branch
  span : Span
deriving Repr, Inhabited

namespace Match

def findings (subject : Match) (env : Environment) (level : Level) (store : Store) :
    Except Fault (Findings × Store) := do
  let rows ← Row.ofBranches 0 subject.branches
  cover env level store rows [subject.scrutinee]

def verdict (subject : Match) (env : Environment) (level : Level) (store : Store)
    (options : Options) : Except Fault (Verdict × Store) := do
  let (findings, grown) ← subject.findings env level store
  return (.ofFindings subject.span options subject.branches.length findings, grown)

def warn (subject : Match) (env : Environment) (level : Level) (store : Store) (options : Options)
    (warnings : List Diagnostic) : Except Fault (Verdict × List Diagnostic × Store) := do
  let (verdict, grown) ← subject.verdict env level store options
  return (verdict, warnings ++ (verdict.diagnostic? options).toList, grown)

end Match

end TypedMatch
