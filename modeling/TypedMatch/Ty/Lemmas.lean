import TypedMatch.Ty.Basic

/-!
# Laws of substitution

Substituting variables by themselves changes nothing, two substitutions one after the other are one
substitution, and a substitution is decided by what it does to the variables that occur.  The
variables of the result are those of the substituted types, in order.
-/

set_option autoImplicit false

namespace TypedMatch.Ty

variable {Var NewVar LastVar : Type}

theorem bindList_eq_map (replace : Var → Ty NewVar) (types : List (Ty Var)) :
    bindList replace types = types.map fun type => type.bind replace := by
  induction types with
  | nil => rfl
  | cons type rest inductionHypothesis => simp only [bindList, List.map_cons, inductionHypothesis]

theorem leavesList_eq_flatMap (types : List (Ty Var)) : leavesList types = types.flatMap leaves := by
  induction types with
  | nil => rfl
  | cons type rest inductionHypothesis =>
      simp only [leavesList, List.flatMap_cons, inductionHypothesis]

theorem mem_leavesList {types : List (Ty Var)} {v : Var} :
    v ∈ leavesList types ↔ ∃ type ∈ types, v ∈ type.leaves := by
  rw [leavesList_eq_flatMap, List.mem_flatMap]

mutual

theorem bind_var : ∀ type : Ty Var, type.bind var = type
  | .base _ => rfl
  | .var _ => rfl
  | .arrow optional domain codomain => by
      simp only [bind, bindList_var optional, bind_var domain, bind_var codomain]
  | .list element => by simp only [bind, bind_var element]
  | .ref content => by simp only [bind, bind_var content]
  | .product components => by simp only [bind, bindList_var components]
  | .data _ args => by simp only [bind, bindList_var args]
  | .synonym _ args expansion => by
      simp only [bind, bindList_var args, bind_var expansion]
  | .record fields => by simp only [bind, bindFields_var fields]
  | .command _ args => by simp only [bind, bindArgs_var args]

theorem bindList_var : ∀ types : List (Ty Var), bindList var types = types
  | [] => rfl
  | type :: rest => by simp only [bindList, bind_var type, bindList_var rest]

theorem bindFields_var : ∀ fields : List (String × Ty Var), bindFields var fields = fields
  | [] => rfl
  | (_, type) :: rest => by simp only [bindFields, bind_var type, bindFields_var rest]

theorem bindArgs_var : ∀ args : List (ArgMode × Ty Var), bindArgs var args = args
  | [] => rfl
  | (_, type) :: rest => by simp only [bindArgs, bind_var type, bindArgs_var rest]

end

mutual

theorem bind_bind (first : Var → Ty NewVar) (second : NewVar → Ty LastVar) :
    ∀ type : Ty Var, (type.bind first).bind second = type.bind fun v => (first v).bind second
  | .base _ => rfl
  | .var _ => rfl
  | .arrow optional domain codomain => by
      simp only [bind, bindList_bindList first second optional, bind_bind first second domain,
        bind_bind first second codomain]
  | .list element => by simp only [bind, bind_bind first second element]
  | .ref content => by simp only [bind, bind_bind first second content]
  | .product components => by simp only [bind, bindList_bindList first second components]
  | .data _ args => by simp only [bind, bindList_bindList first second args]
  | .synonym _ args expansion => by
      simp only [bind, bindList_bindList first second args, bind_bind first second expansion]
  | .record fields => by simp only [bind, bindFields_bindFields first second fields]
  | .command _ args => by simp only [bind, bindArgs_bindArgs first second args]

theorem bindList_bindList (first : Var → Ty NewVar) (second : NewVar → Ty LastVar) :
    ∀ types : List (Ty Var),
      bindList second (bindList first types) = bindList (fun v => (first v).bind second) types
  | [] => rfl
  | type :: rest => by
      simp only [bindList, bind_bind first second type, bindList_bindList first second rest]

theorem bindFields_bindFields (first : Var → Ty NewVar) (second : NewVar → Ty LastVar) :
    ∀ fields : List (String × Ty Var),
      bindFields second (bindFields first fields)
        = bindFields (fun v => (first v).bind second) fields
  | [] => rfl
  | (_, type) :: rest => by
      simp only [bindFields, bind_bind first second type, bindFields_bindFields first second rest]

theorem bindArgs_bindArgs (first : Var → Ty NewVar) (second : NewVar → Ty LastVar) :
    ∀ args : List (ArgMode × Ty Var),
      bindArgs second (bindArgs first args) = bindArgs (fun v => (first v).bind second) args
  | [] => rfl
  | (_, type) :: rest => by
      simp only [bindArgs, bind_bind first second type, bindArgs_bindArgs first second rest]

end

mutual

/-- The variables after a substitution are those of the substituted types, in order. -/
theorem leaves_bind (replace : Var → Ty NewVar) :
    ∀ type : Ty Var, (type.bind replace).leaves = type.leaves.flatMap fun v => (replace v).leaves
  | .base _ => rfl
  | .var _ => by simp only [bind, leaves, List.flatMap_cons, List.flatMap_nil, List.append_nil]
  | .arrow optional domain codomain => by
      simp only [bind, leaves, leavesList_bindList replace optional, leaves_bind replace domain,
        leaves_bind replace codomain, List.flatMap_append]
  | .list element => by simp only [bind, leaves, leaves_bind replace element]
  | .ref content => by simp only [bind, leaves, leaves_bind replace content]
  | .product components => by simp only [bind, leaves, leavesList_bindList replace components]
  | .data _ args => by simp only [bind, leaves, leavesList_bindList replace args]
  | .synonym _ args expansion => by
      simp only [bind, leaves, leavesList_bindList replace args, leaves_bind replace expansion,
        List.flatMap_append]
  | .record fields => by simp only [bind, leaves, leavesFields_bindFields replace fields]
  | .command _ args => by simp only [bind, leaves, leavesArgs_bindArgs replace args]

theorem leavesList_bindList (replace : Var → Ty NewVar) :
    ∀ types : List (Ty Var),
      leavesList (bindList replace types)
        = (leavesList types).flatMap fun v => (replace v).leaves
  | [] => rfl
  | type :: rest => by
      simp only [bindList, leavesList, leaves_bind replace type,
        leavesList_bindList replace rest, List.flatMap_append]

theorem leavesFields_bindFields (replace : Var → Ty NewVar) :
    ∀ fields : List (String × Ty Var),
      leavesFields (bindFields replace fields)
        = (leavesFields fields).flatMap fun v => (replace v).leaves
  | [] => rfl
  | (_, type) :: rest => by
      simp only [bindFields, leavesFields, leaves_bind replace type,
        leavesFields_bindFields replace rest, List.flatMap_append]

theorem leavesArgs_bindArgs (replace : Var → Ty NewVar) :
    ∀ args : List (ArgMode × Ty Var),
      leavesArgs (bindArgs replace args) = (leavesArgs args).flatMap fun v => (replace v).leaves
  | [] => rfl
  | (_, type) :: rest => by
      simp only [bindArgs, leavesArgs, leaves_bind replace type, leavesArgs_bindArgs replace rest,
        List.flatMap_append]

end

mutual

theorem bind_congr {first second : Var → Ty NewVar} :
    ∀ type : Ty Var, (∀ v ∈ type.leaves, first v = second v) → type.bind first = type.bind second
  | .base _, _ => rfl
  | .var v, agree => agree v (by simp only [leaves, List.mem_singleton])
  | .arrow optional domain codomain, agree => by
      simp only [leaves, List.mem_append] at agree
      simp only [bind, bindList_congr optional fun v occurs => agree v (.inl (.inl occurs)),
        bind_congr domain fun v occurs => agree v (.inl (.inr occurs)),
        bind_congr codomain fun v occurs => agree v (.inr occurs)]
  | .list element, agree => by simp only [bind, bind_congr element agree]
  | .ref content, agree => by simp only [bind, bind_congr content agree]
  | .product components, agree => by simp only [bind, bindList_congr components agree]
  | .data _ args, agree => by simp only [bind, bindList_congr args agree]
  | .synonym _ args expansion, agree => by
      simp only [leaves, List.mem_append] at agree
      simp only [bind, bindList_congr args fun v occurs => agree v (.inl occurs),
        bind_congr expansion fun v occurs => agree v (.inr occurs)]
  | .record fields, agree => by simp only [bind, bindFields_congr fields agree]
  | .command _ args, agree => by simp only [bind, bindArgs_congr args agree]

theorem bindList_congr {first second : Var → Ty NewVar} :
    ∀ types : List (Ty Var), (∀ v ∈ leavesList types, first v = second v) →
      bindList first types = bindList second types
  | [], _ => rfl
  | type :: rest, agree => by
      simp only [leavesList, List.mem_append] at agree
      simp only [bindList, bind_congr type fun v occurs => agree v (.inl occurs),
        bindList_congr rest fun v occurs => agree v (.inr occurs)]

theorem bindFields_congr {first second : Var → Ty NewVar} :
    ∀ fields : List (String × Ty Var), (∀ v ∈ leavesFields fields, first v = second v) →
      bindFields first fields = bindFields second fields
  | [], _ => rfl
  | (_, type) :: rest, agree => by
      simp only [leavesFields, List.mem_append] at agree
      simp only [bindFields, bind_congr type fun v occurs => agree v (.inl occurs),
        bindFields_congr rest fun v occurs => agree v (.inr occurs)]

theorem bindArgs_congr {first second : Var → Ty NewVar} :
    ∀ args : List (ArgMode × Ty Var), (∀ v ∈ leavesArgs args, first v = second v) →
      bindArgs first args = bindArgs second args
  | [], _ => rfl
  | (_, type) :: rest, agree => by
      simp only [leavesArgs, List.mem_append] at agree
      simp only [bindArgs, bind_congr type fun v occurs => agree v (.inl occurs),
        bindArgs_congr rest fun v occurs => agree v (.inr occurs)]

end

theorem leaves_map (rename : Var → NewVar) (type : Ty Var) :
    (type.map rename).leaves = type.leaves.map rename := by
  rw [map, leaves_bind, List.map_eq_flatMap]
  rfl

end TypedMatch.Ty

namespace TypedMatch.Kind

variable {Var NewVar LastVar : Type}

theorem bind_bind (first : Var → Ty NewVar) (second : NewVar → Ty LastVar) (kind : Kind Var) :
    (kind.bind first).bind second = kind.bind fun v => (first v).bind second := by
  cases kind with
  | any => rfl
  | record fields => simp only [bind, Ty.bindFields_bindFields]

theorem leaves_bind (replace : Var → Ty NewVar) (kind : Kind Var) :
    (kind.bind replace).leaves = kind.leaves.flatMap fun v => (replace v).leaves := by
  cases kind with
  | any => rfl
  | record fields => simp only [bind, leaves, Ty.leavesFields_bindFields]

theorem leaves_bind_var (rename : Var → NewVar) (kind : Kind Var) :
    (kind.bind fun v => .var (rename v)).leaves = kind.leaves.map rename := by
  rw [leaves_bind, List.map_eq_flatMap]
  rfl

theorem bind_congr {first second : Var → Ty NewVar} {kind : Kind Var}
    (agree : ∀ v ∈ kind.leaves, first v = second v) : kind.bind first = kind.bind second := by
  cases kind with
  | any => rfl
  | record fields => rw [bind, bind, Ty.bindFields_congr fields agree]

end TypedMatch.Kind
