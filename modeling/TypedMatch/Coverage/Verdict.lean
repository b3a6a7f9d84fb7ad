import TypedMatch.Coverage.Cover
import TypedMatch.Diagnostic.Basic

/-!
# Verdicts

What a check says about a match: witnesses of the values that no branch matches, witnesses of those
that only guarded branches match, and the branches that no value selects.  Witnesses are listed once
each, in the order in which they were found, and only up to a limit; how many are left out is counted,
so that nothing but the list depends on the limit.  A verdict turns into at most one warning.
-/

set_option autoImplicit false

namespace TypedMatch

/-- What a verdict lists, and what becomes part of a warning. -/
structure Options where
  witnessLimit : Nat := 8
  mentionUnselected : Bool := true
  mentionGuarded : Bool := true
deriving DecidableEq, Repr, Inhabited

/-- Witnesses up to a limit, and the number of those beyond it. -/
structure Listing where
  kept : List Witness
  omitted : Nat
deriving DecidableEq, Repr, Inhabited

namespace Listing

def ofWitnesses (limit : Nat) (witnesses : List Witness) : Listing :=
  let distinct := witnesses.eraseDups
  ⟨distinct.take limit, distinct.length - limit⟩

def isEmpty (listing : Listing) : Bool := listing.kept.isEmpty && listing.omitted == 0

def notes (label : String) (listing : Listing) : List String :=
  listing.kept.map (fun witness => label ++ ": " ++ witness.text)
    ++ if listing.omitted = 0 then []
      else [label ++ ": " ++ toString listing.omitted ++ " more case(s) not shown"]

end Listing

/-- What a check says about a match.  Branches are numbered from zero. -/
structure Verdict where
  span : Span
  /-- Values that no branch matches. -/
  unmatched : Listing
  /-- Values that guarded branches match and no other. -/
  guardedOnly : Listing
  /-- The branches that some value selects, in ascending order. -/
  selected : List Nat
  /-- The branches that no value selects, in ascending order. -/
  unselected : List Nat
deriving DecidableEq, Repr, Inhabited

namespace Verdict

def witnessesOf (kind : HoleKind) (findings : Findings) : List Witness :=
  (findings.holes.filter fun hole => hole.kind == kind).filterMap fun hole => hole.witnesses.head?

def ofFindings (span : Span) (options : Options) (branches : Nat) (findings : Findings) :
    Verdict :=
  { span
    unmatched := .ofWitnesses options.witnessLimit (witnessesOf .unmatched findings)
    guardedOnly := .ofWitnesses options.witnessLimit (witnessesOf .guardedOnly findings)
    selected := (List.range branches).filter fun index => findings.reached.contains index
    unselected := (List.range branches).filter fun index => !findings.reached.contains index }

def isExhaustive (verdict : Verdict) : Bool := verdict.unmatched.isEmpty

def needsGuards (verdict : Verdict) : Bool := !verdict.guardedOnly.isEmpty

def isQuiet (verdict : Verdict) : Bool :=
  verdict.isExhaustive && !verdict.needsGuards && verdict.unselected.isEmpty

/-! ## As a warning -/

/-- What a warning is about in the first place. -/
inductive Topic where
  | unmatched
  | guardedOnly
  | unselected
deriving DecidableEq, Repr, Inhabited

namespace Topic

def code : Topic → String
  | unmatched => "W0001"
  | guardedOnly => "W0002"
  | unselected => "W0003"

def headline : Topic → String
  | unmatched => "this pattern match is not exhaustive"
  | guardedOnly => "this pattern match is exhaustive only if its guards hold"
  | unselected => "this pattern match has unused branches"

end Topic

def mentionsGuarded (verdict : Verdict) (options : Options) : Bool :=
  options.mentionGuarded && verdict.needsGuards

def mentionsUnselected (verdict : Verdict) (options : Options) : Bool :=
  options.mentionUnselected && !verdict.unselected.isEmpty

def topic? (verdict : Verdict) (options : Options) : Option Topic :=
  if !verdict.isExhaustive then some .unmatched
  else if verdict.mentionsGuarded options then some .guardedOnly
  else if verdict.mentionsUnselected options then some .unselected
  else none

def notes (verdict : Verdict) (options : Options) : List String :=
  verdict.unmatched.notes "non-exhaustive"
    ++ (if verdict.mentionsGuarded options then verdict.guardedOnly.notes "guard-unverified"
      else [])
    ++ (if verdict.mentionsUnselected options then
        verdict.unselected.map fun index => "pattern #" ++ toString (index + 1) ++ " is unused"
      else [])

/-- The warning about everything that the options ask for, if there is anything.  A match that is
not exhaustive is always worth a warning. -/
def diagnostic? (verdict : Verdict) (options : Options) : Option Diagnostic :=
  (verdict.topic? options).map fun topic =>
    { severity := .warning
      message := topic.headline
      span := verdict.span
      notes := verdict.notes options
      help :=
        if verdict.isExhaustive then none
        else some "add branches for the missing cases or a final `_`"
      code := some topic.code }

def numberCount : Nat := UInt64.size

/-- Whether every branch that a warning mentions has a number when branches are counted from one. -/
def isNumbered (verdict : Verdict) (options : Options) : Bool :=
  !verdict.mentionsUnselected options
    || verdict.unselected.all fun index => index + 1 < numberCount

/-- The warning of a verdict about a match that need not exist, whose branches may have any number. -/
def warning? (verdict : Verdict) (options : Options) : Except Fault (Option Diagnostic) :=
  if verdict.isNumbered options then .ok (verdict.diagnostic? options) else .error .numberOverflow

end Verdict

end TypedMatch
