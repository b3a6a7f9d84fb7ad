import TypedMatch.Ty.Lemmas

/-!
# Resolving types

What a type stands for does not depend on its synonyms: a synonym stands for its expansion, and its
arguments are not looked at.  `Ty.resolve` replaces every synonym by what it stands for, and every
variable by a chosen type.  The laws below say how this goes together with substitution, before it
and after it, and that only the variables that occur matter.
-/

set_option autoImplicit false

namespace TypedMatch.Ty

variable {Var NewVar LastVar : Type}

mutual

/-- The type with every synonym replaced by its expansion and every variable by a chosen type. -/
def resolve (replace : Var → Ty NewVar) : Ty Var → Ty NewVar
  | base b => .base b
  | var v => replace v
  | arrow optional domain codomain =>
      .arrow (resolveList replace optional) (domain.resolve replace) (codomain.resolve replace)
  | list element => .list (element.resolve replace)
  | ref content => .ref (content.resolve replace)
  | product components => .product (resolveList replace components)
  | data con args => .data con (resolveList replace args)
  | synonym _ _ expansion => expansion.resolve replace
  | record fields => .record (resolveFields replace fields)
  | command mode args => .command mode (resolveArgs replace args)

def resolveList (replace : Var → Ty NewVar) : List (Ty Var) → List (Ty NewVar)
  | [] => []
  | type :: rest => type.resolve replace :: resolveList replace rest

def resolveFields (replace : Var → Ty NewVar) :
    List (String × Ty Var) → List (String × Ty NewVar)
  | [] => []
  | (label, type) :: rest => (label, type.resolve replace) :: resolveFields replace rest

def resolveArgs (replace : Var → Ty NewVar) :
    List (ArgMode × Ty Var) → List (ArgMode × Ty NewVar)
  | [] => []
  | (mode, type) :: rest => (mode, type.resolve replace) :: resolveArgs replace rest

end

theorem resolveList_eq_map (replace : Var → Ty NewVar) (types : List (Ty Var)) :
    resolveList replace types = types.map fun type => type.resolve replace := by
  induction types with
  | nil => rfl
  | cons type rest inductionHypothesis =>
      simp only [resolveList, List.map_cons, inductionHypothesis]

theorem resolve_bare (replace : Var → Ty NewVar) :
    ∀ type : Ty Var, type.bare.resolve replace = type.resolve replace := by
  intro type
  fun_induction bare type with
  | case1 _ _ expansion inductionHypothesis => rw [resolve, inductionHypothesis]
  | case2 => rfl

mutual

theorem resolve_bind (first : Var → Ty NewVar) (second : NewVar → Ty LastVar) :
    ∀ type : Ty Var,
      (type.bind first).resolve second = type.resolve fun v => (first v).resolve second
  | .base _ => rfl
  | .var _ => rfl
  | .arrow optional domain codomain => by
      simp only [bind, resolve, resolveList_bindList first second optional,
        resolve_bind first second domain, resolve_bind first second codomain]
  | .list element => by simp only [bind, resolve, resolve_bind first second element]
  | .ref content => by simp only [bind, resolve, resolve_bind first second content]
  | .product components => by
      simp only [bind, resolve, resolveList_bindList first second components]
  | .data _ args => by simp only [bind, resolve, resolveList_bindList first second args]
  | .synonym _ _ expansion => by simp only [bind, resolve, resolve_bind first second expansion]
  | .record fields => by simp only [bind, resolve, resolveFields_bindFields first second fields]
  | .command _ args => by simp only [bind, resolve, resolveArgs_bindArgs first second args]

theorem resolveList_bindList (first : Var → Ty NewVar) (second : NewVar → Ty LastVar) :
    ∀ types : List (Ty Var),
      resolveList second (bindList first types)
        = resolveList (fun v => (first v).resolve second) types
  | [] => rfl
  | type :: rest => by
      simp only [bindList, resolveList, resolve_bind first second type,
        resolveList_bindList first second rest]

theorem resolveFields_bindFields (first : Var → Ty NewVar) (second : NewVar → Ty LastVar) :
    ∀ fields : List (String × Ty Var),
      resolveFields second (bindFields first fields)
        = resolveFields (fun v => (first v).resolve second) fields
  | [] => rfl
  | (_, type) :: rest => by
      simp only [bindFields, resolveFields, resolve_bind first second type,
        resolveFields_bindFields first second rest]

theorem resolveArgs_bindArgs (first : Var → Ty NewVar) (second : NewVar → Ty LastVar) :
    ∀ args : List (ArgMode × Ty Var),
      resolveArgs second (bindArgs first args)
        = resolveArgs (fun v => (first v).resolve second) args
  | [] => rfl
  | (_, type) :: rest => by
      simp only [bindArgs, resolveArgs, resolve_bind first second type,
        resolveArgs_bindArgs first second rest]

end

mutual

theorem bind_resolve (first : Var → Ty NewVar) (second : NewVar → Ty LastVar) :
    ∀ type : Ty Var, (type.resolve first).bind second = type.resolve fun v => (first v).bind second
  | .base _ => rfl
  | .var _ => rfl
  | .arrow optional domain codomain => by
      simp only [bind, resolve, bindList_resolveList first second optional,
        bind_resolve first second domain, bind_resolve first second codomain]
  | .list element => by simp only [bind, resolve, bind_resolve first second element]
  | .ref content => by simp only [bind, resolve, bind_resolve first second content]
  | .product components => by
      simp only [bind, resolve, bindList_resolveList first second components]
  | .data _ args => by simp only [bind, resolve, bindList_resolveList first second args]
  | .synonym _ _ expansion => by simp only [resolve, bind_resolve first second expansion]
  | .record fields => by simp only [bind, resolve, bindFields_resolveFields first second fields]
  | .command _ args => by simp only [bind, resolve, bindArgs_resolveArgs first second args]

theorem bindList_resolveList (first : Var → Ty NewVar) (second : NewVar → Ty LastVar) :
    ∀ types : List (Ty Var),
      bindList second (resolveList first types)
        = resolveList (fun v => (first v).bind second) types
  | [] => rfl
  | type :: rest => by
      simp only [bindList, resolveList, bind_resolve first second type,
        bindList_resolveList first second rest]

theorem bindFields_resolveFields (first : Var → Ty NewVar) (second : NewVar → Ty LastVar) :
    ∀ fields : List (String × Ty Var),
      bindFields second (resolveFields first fields)
        = resolveFields (fun v => (first v).bind second) fields
  | [] => rfl
  | (_, type) :: rest => by
      simp only [bindFields, resolveFields, bind_resolve first second type,
        bindFields_resolveFields first second rest]

theorem bindArgs_resolveArgs (first : Var → Ty NewVar) (second : NewVar → Ty LastVar) :
    ∀ args : List (ArgMode × Ty Var),
      bindArgs second (resolveArgs first args)
        = resolveArgs (fun v => (first v).bind second) args
  | [] => rfl
  | (_, type) :: rest => by
      simp only [bindArgs, resolveArgs, bind_resolve first second type,
        bindArgs_resolveArgs first second rest]

end

mutual

theorem resolve_congr {first second : Var → Ty NewVar} :
    ∀ type : Ty Var, (∀ v ∈ type.leaves, first v = second v) →
      type.resolve first = type.resolve second
  | .base _, _ => rfl
  | .var v, agree => agree v (by simp only [leaves, List.mem_singleton])
  | .arrow optional domain codomain, agree => by
      simp only [leaves, List.mem_append] at agree
      simp only [resolve, resolveList_congr optional fun v occurs => agree v (.inl (.inl occurs)),
        resolve_congr domain fun v occurs => agree v (.inl (.inr occurs)),
        resolve_congr codomain fun v occurs => agree v (.inr occurs)]
  | .list element, agree => by simp only [resolve, resolve_congr element agree]
  | .ref content, agree => by simp only [resolve, resolve_congr content agree]
  | .product components, agree => by simp only [resolve, resolveList_congr components agree]
  | .data _ args, agree => by simp only [resolve, resolveList_congr args agree]
  | .synonym _ _ expansion, agree => by
      simp only [leaves, List.mem_append] at agree
      simp only [resolve, resolve_congr expansion fun v occurs => agree v (.inr occurs)]
  | .record fields, agree => by simp only [resolve, resolveFields_congr fields agree]
  | .command _ args, agree => by simp only [resolve, resolveArgs_congr args agree]

theorem resolveList_congr {first second : Var → Ty NewVar} :
    ∀ types : List (Ty Var), (∀ v ∈ leavesList types, first v = second v) →
      resolveList first types = resolveList second types
  | [], _ => rfl
  | type :: rest, agree => by
      simp only [leavesList, List.mem_append] at agree
      simp only [resolveList, resolve_congr type fun v occurs => agree v (.inl occurs),
        resolveList_congr rest fun v occurs => agree v (.inr occurs)]

theorem resolveFields_congr {first second : Var → Ty NewVar} :
    ∀ fields : List (String × Ty Var), (∀ v ∈ leavesFields fields, first v = second v) →
      resolveFields first fields = resolveFields second fields
  | [], _ => rfl
  | (_, type) :: rest, agree => by
      simp only [leavesFields, List.mem_append] at agree
      simp only [resolveFields, resolve_congr type fun v occurs => agree v (.inl occurs),
        resolveFields_congr rest fun v occurs => agree v (.inr occurs)]

theorem resolveArgs_congr {first second : Var → Ty NewVar} :
    ∀ args : List (ArgMode × Ty Var), (∀ v ∈ leavesArgs args, first v = second v) →
      resolveArgs first args = resolveArgs second args
  | [], _ => rfl
  | (_, type) :: rest, agree => by
      simp only [leavesArgs, List.mem_append] at agree
      simp only [resolveArgs, resolve_congr type fun v occurs => agree v (.inl occurs),
        resolveArgs_congr rest fun v occurs => agree v (.inr occurs)]

end

theorem bare_ne_synonym {con : TyCon} {args : List (Ty Var)} {expansion : Ty Var} :
    ∀ type : Ty Var, type.bare ≠ .synonym con args expansion
  | .synonym _ _ inner => bare_ne_synonym inner
  | .base _ => nofun
  | .var _ => nofun
  | .arrow _ _ _ => nofun
  | .list _ => nofun
  | .ref _ => nofun
  | .product _ => nofun
  | .data _ _ => nofun
  | .record _ => nofun
  | .command _ _ => nofun

theorem mem_leaves_of_mem_leaves_bare {v : Var} :
    ∀ type : Ty Var, v ∈ type.bare.leaves → v ∈ type.leaves
  | .base _, occurs => occurs
  | .var _, occurs => occurs
  | .arrow _ _ _, occurs => occurs
  | .list _, occurs => occurs
  | .ref _, occurs => occurs
  | .product _, occurs => occurs
  | .data _ _, occurs => occurs
  | .synonym _ args expansion, occurs => by
      have inner := mem_leaves_of_mem_leaves_bare expansion occurs
      simp only [leaves, List.mem_append]
      exact Or.inr inner
  | .record _, occurs => occurs
  | .command _ _, occurs => occurs

end TypedMatch.Ty
