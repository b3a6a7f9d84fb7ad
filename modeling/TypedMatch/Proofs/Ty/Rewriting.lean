import TypedMatch.Ty.Lemmas

/-!
# Rewriting types step by step

A walk over a type that puts a type in the place of every variable and carries a state from one variable to
the next, from left to right.  Every other node is built again.  What such a walk gives is known once it is
known what each variable gives: an invariant of the state that speaks of the variables still to come is handed
from variable to variable, and where one of them fails the walk fails with it.
-/

set_option autoImplicit false

namespace TypedMatch

variable {Value Result State : Type}

/-- Whether a computation that carries a state gives a value and leaves a state with a property, or fails with
a fault of a kind. -/
def Yields (value : Value) (holds : State → Prop) (fails : Fault → Prop) :
    Except Fault (Value × State) → Prop
  | .ok (found, state) => found = value ∧ holds state
  | .error fault => fails fault

theorem Yields.bind {value : Value} {result : Result} {first last : State → Prop} {fails : Fault → Prop}
    {step : Except Fault (Value × State)} {next : Value × State → Except Fault (Result × State)}
    (yields : Yields value first fails step)
    (further : ∀ state, first state → Yields result last fails (next (value, state))) :
    Yields result last fails (step >>= next) := by
  cases step with
  | error fault => exact yields
  | ok outcome =>
      obtain ⟨found, state⟩ := outcome
      obtain ⟨rfl, holds⟩ := yields
      exact further state holds

theorem Yields.imp {value : Value} {holds more : State → Prop} {fails : Fault → Prop}
    {step : Except Fault (Value × State)} (yields : Yields value holds fails step)
    (weaker : ∀ state, holds state → more state) : Yields value more fails step := by
  cases step with
  | error fault => exact yields
  | ok outcome => exact ⟨yields.1, weaker _ yields.2⟩

namespace Ty

variable {Var NewVar : Type}

/-! ## Walks -/

mutual

/-- A type in which every variable, from left to right, has given way to the type that is found for it. -/
def rewrite (find : State → Var → Except Fault (Ty NewVar × State)) :
    State → Ty Var → Except Fault (Ty NewVar × State)
  | state, base b => .ok (base b, state)
  | state, var v => find state v
  | state, arrow optional domain codomain => do
      let (optional, state) ← rewriteList find state optional
      let (domain, state) ← rewrite find state domain
      let (codomain, state) ← rewrite find state codomain
      return (arrow optional domain codomain, state)
  | state, list element => do
      let (element, state) ← rewrite find state element
      return (list element, state)
  | state, ref content => do
      let (content, state) ← rewrite find state content
      return (ref content, state)
  | state, product components => do
      let (components, state) ← rewriteList find state components
      return (product components, state)
  | state, data con args => do
      let (args, state) ← rewriteList find state args
      return (data con args, state)
  | state, synonym con args expansion => do
      let (args, state) ← rewriteList find state args
      let (expansion, state) ← rewrite find state expansion
      return (synonym con args expansion, state)
  | state, record fields => do
      let (fields, state) ← rewriteFields find state fields
      return (record fields, state)
  | state, command mode args => do
      let (args, state) ← rewriteArgs find state args
      return (command mode args, state)

def rewriteList (find : State → Var → Except Fault (Ty NewVar × State)) :
    State → List (Ty Var) → Except Fault (List (Ty NewVar) × State)
  | state, [] => .ok ([], state)
  | state, type :: rest => do
      let (type, state) ← rewrite find state type
      let (rest, state) ← rewriteList find state rest
      return (type :: rest, state)

def rewriteFields (find : State → Var → Except Fault (Ty NewVar × State)) :
    State → List (String × Ty Var) → Except Fault (List (String × Ty NewVar) × State)
  | state, [] => .ok ([], state)
  | state, (label, type) :: rest => do
      let (type, state) ← rewrite find state type
      let (rest, state) ← rewriteFields find state rest
      return ((label, type) :: rest, state)

def rewriteArgs (find : State → Var → Except Fault (Ty NewVar × State)) :
    State → List (ArgMode × Ty Var) → Except Fault (List (ArgMode × Ty NewVar) × State)
  | state, [] => .ok ([], state)
  | state, (mode, type) :: rest => do
      let (type, state) ← rewrite find state type
      let (rest, state) ← rewriteArgs find state rest
      return ((mode, type) :: rest, state)

end

/-! ## What a walk gives -/

section Yields

variable {find : State → Var → Except Fault (Ty NewVar × State)} {replace : Var → Ty NewVar}
  {holds : List Var → State → Prop} {fails : Fault → Prop}

/-- Whether an invariant of the variables still to come is handed on by a variable, which gives the type that
is put in its place. -/
def Hands (find : State → Var → Except Fault (Ty NewVar × State)) (replace : Var → Ty NewVar)
    (holds : List Var → State → Prop) (fails : Fault → Prop) : Prop :=
  ∀ v rest state, holds (v :: rest) state → Yields (replace v) (holds rest) fails (find state v)

mutual

theorem Hands.rewrite (hands : Hands find replace holds fails) :
    ∀ (type : Ty Var) (rest : List Var) (state : State), holds (type.leaves ++ rest) state →
      Yields (type.bind replace) (holds rest) fails (type.rewrite find state)
  | .base _, _, _, initially => ⟨rfl, initially⟩
  | .var v, rest, state, initially => hands v rest state initially
  | .arrow optional domain codomain, rest, state, initially => by
      rw [leaves, List.append_assoc, List.append_assoc] at initially
      rw [Ty.rewrite]
      refine (hands.rewriteList optional _ state initially).bind fun second holdsSecond => ?_
      refine (hands.rewrite domain _ second holdsSecond).bind fun third holdsThird => ?_
      refine (hands.rewrite codomain _ third holdsThird).bind fun last holdsLast => ?_
      exact ⟨rfl, holdsLast⟩
  | .list element, rest, state, initially =>
      (hands.rewrite element rest state initially).bind fun _ holdsLast => ⟨rfl, holdsLast⟩
  | .ref content, rest, state, initially =>
      (hands.rewrite content rest state initially).bind fun _ holdsLast => ⟨rfl, holdsLast⟩
  | .product components, rest, state, initially =>
      (hands.rewriteList components rest state initially).bind fun _ holdsLast => ⟨rfl, holdsLast⟩
  | .data _ args, rest, state, initially =>
      (hands.rewriteList args rest state initially).bind fun _ holdsLast => ⟨rfl, holdsLast⟩
  | .synonym _ args expansion, rest, state, initially => by
      rw [leaves, List.append_assoc] at initially
      rw [Ty.rewrite]
      refine (hands.rewriteList args _ state initially).bind fun second holdsSecond => ?_
      refine (hands.rewrite expansion _ second holdsSecond).bind fun last holdsLast => ?_
      exact ⟨rfl, holdsLast⟩
  | .record fields, rest, state, initially =>
      (hands.rewriteFields fields rest state initially).bind fun _ holdsLast => ⟨rfl, holdsLast⟩
  | .command _ args, rest, state, initially =>
      (hands.rewriteArgs args rest state initially).bind fun _ holdsLast => ⟨rfl, holdsLast⟩

theorem Hands.rewriteList (hands : Hands find replace holds fails) :
    ∀ (types : List (Ty Var)) (rest : List Var) (state : State), holds (leavesList types ++ rest) state →
      Yields (bindList replace types) (holds rest) fails (rewriteList find state types)
  | [], _, _, initially => ⟨rfl, initially⟩
  | type :: types, rest, state, initially => by
      rw [leavesList, List.append_assoc] at initially
      rw [Ty.rewriteList]
      refine (hands.rewrite type _ state initially).bind fun second holdsSecond => ?_
      refine (hands.rewriteList types _ second holdsSecond).bind fun last holdsLast => ?_
      exact ⟨rfl, holdsLast⟩

theorem Hands.rewriteFields (hands : Hands find replace holds fails) :
    ∀ (fields : List (String × Ty Var)) (rest : List Var) (state : State),
      holds (leavesFields fields ++ rest) state →
      Yields (bindFields replace fields) (holds rest) fails (rewriteFields find state fields)
  | [], _, _, initially => ⟨rfl, initially⟩
  | (_, type) :: fields, rest, state, initially => by
      rw [leavesFields, List.append_assoc] at initially
      rw [Ty.rewriteFields]
      refine (hands.rewrite type _ state initially).bind fun second holdsSecond => ?_
      refine (hands.rewriteFields fields _ second holdsSecond).bind fun last holdsLast => ?_
      exact ⟨rfl, holdsLast⟩

theorem Hands.rewriteArgs (hands : Hands find replace holds fails) :
    ∀ (args : List (ArgMode × Ty Var)) (rest : List Var) (state : State),
      holds (leavesArgs args ++ rest) state →
      Yields (bindArgs replace args) (holds rest) fails (rewriteArgs find state args)
  | [], _, _, initially => ⟨rfl, initially⟩
  | (_, type) :: args, rest, state, initially => by
      rw [leavesArgs, List.append_assoc] at initially
      rw [Ty.rewriteArgs]
      refine (hands.rewrite type _ state initially).bind fun second holdsSecond => ?_
      refine (hands.rewriteArgs args _ second holdsSecond).bind fun last holdsLast => ?_
      exact ⟨rfl, holdsLast⟩

end

end Yields

end Ty

namespace Kind

variable {Var NewVar : Type} {find : State → Var → Except Fault (Ty NewVar × State)}

def rewrite (find : State → Var → Except Fault (Ty NewVar × State)) (state : State) :
    Kind Var → Except Fault (Kind NewVar × State)
  | any => .ok (.any, state)
  | record fields => do
      let (fields, state) ← Ty.rewriteFields find state fields
      return (.record fields, state)

theorem yields_rewrite {replace : Var → Ty NewVar} {holds : List Var → State → Prop}
    {fails : Fault → Prop} (hands : Ty.Hands find replace holds fails) (kind : Kind Var) {state : State}
    (initially : holds kind.leaves state) :
    Yields (kind.bind replace) (holds []) fails (kind.rewrite find state) := by
  cases kind with
  | any => exact ⟨rfl, initially⟩
  | record fields =>
      rw [leaves, ← List.append_nil (Ty.leavesFields fields)] at initially
      exact (hands.rewriteFields fields [] state initially).bind fun _ holdsLast => ⟨rfl, holdsLast⟩

end Kind

end TypedMatch
