import TypedMatch.Proofs.Environment.Root

/-!
# How long an expansion takes

An expansion that ends takes no more steps than `Environment.budget` allows.  The body of an alias is
expanded without regard to the arguments until it shows what it is or comes down to a parameter, and
in the second case the expansion goes on with an argument.  So an alias has a cost of its own.  A body
only sets off aliases of lower cost than its own alias, and at most as many of them as applications
are nested in it.  With every alias that is left to set off the cost can only grow by that factor.
-/

set_option autoImplicit false

namespace TypedMatch

/-! ## Nesting -/

namespace Ty

variable {Var NewVar : Type}

mutual

def nesting : Ty Var → Nat
  | data _ args => 1 + nestingList args
  | synonym _ _ expansion => expansion.nesting
  | _ => 0

def nestingList : List (Ty Var) → Nat
  | [] => 0
  | type :: rest => max type.nesting (nestingList rest)

end

theorem nesting_le_nestingList {type : Ty Var} {types : List (Ty Var)} (among : type ∈ types) :
    type.nesting ≤ nestingList types := by
  induction types with
  | nil => cases among
  | cons first rest inductionHypothesis =>
      rw [nestingList]
      rcases List.mem_cons.mp among with rfl | inRest
      · exact Nat.le_max_left _ _
      · exact Nat.le_trans (inductionHypothesis inRest) (Nat.le_max_right _ _)

mutual

theorem nesting_resolve_le (replace : Var → Ty NewVar) {bound : Nat}
    (small : ∀ v, (replace v).nesting ≤ bound) :
    ∀ type : Ty Var, (type.resolve replace).nesting ≤ type.size + bound
  | .var v => Nat.le_trans (small v) (Nat.le_add_left _ _)
  | .data _ args => by
      have inner := nestingList_resolveList_le replace small args
      simp only [resolve, nesting, size]
      omega
  | .synonym _ _ expansion => by
      have inner := nesting_resolve_le replace small expansion
      simp only [resolve, size]
      omega
  | .base _ => Nat.zero_le _
  | .arrow _ _ _ => Nat.zero_le _
  | .list _ => Nat.zero_le _
  | .ref _ => Nat.zero_le _
  | .product _ => Nat.zero_le _
  | .record _ => Nat.zero_le _
  | .command _ _ => Nat.zero_le _

theorem nestingList_resolveList_le (replace : Var → Ty NewVar) {bound : Nat}
    (small : ∀ v, (replace v).nesting ≤ bound) :
    ∀ types : List (Ty Var), nestingList (resolveList replace types) ≤ sizeList types + bound
  | [] => Nat.zero_le _
  | type :: rest => by
      have first := nesting_resolve_le replace small type
      have others := nestingList_resolveList_le replace small rest
      simp only [resolveList, nestingList, sizeList]
      omega

end

mutual

theorem nesting_map (rename : Var → NewVar) :
    ∀ type : Ty Var, (type.map rename).nesting = type.nesting
  | .data _ args => by
      have inner := nestingList_map rename args
      simp only [map, bind, nesting] at inner ⊢
      rw [inner]
  | .synonym _ _ expansion => by
      have inner := nesting_map rename expansion
      simp only [map, bind, nesting] at inner ⊢
      exact inner
  | .base _ => rfl
  | .var _ => rfl
  | .arrow _ _ _ => rfl
  | .list _ => rfl
  | .ref _ => rfl
  | .product _ => rfl
  | .record _ => rfl
  | .command _ _ => rfl

theorem nestingList_map (rename : Var → NewVar) :
    ∀ types : List (Ty Var),
      nestingList (bindList (fun v => .var (rename v)) types) = nestingList types
  | [] => rfl
  | type :: rest => by
      have first := nesting_map rename type
      rw [map] at first
      rw [bindList, nestingList, nestingList, first, nestingList_map rename rest]

end

end Ty

theorem le_foldr_of_mem {Item : Type} (amount : Item → Nat) {item : Item} {items : List Item}
    (among : item ∈ items) :
    amount item ≤ items.foldr (fun item total => amount item + total) 0 := by
  induction among with
  | head => exact Nat.le_add_right _ _
  | tail _ _ inductionHypothesis => exact Nat.le_trans inductionHypothesis (Nat.le_add_left _ _)

namespace Store

theorem size_le_linkedSize {store : Store} {v : MetaVar} {target : Ty MetaVar}
    (stored : store.cells.get? v = some (.linked target)) : target.size ≤ store.linkedSize := by
  obtain ⟨before, after, split, _⟩ := List.lookup_eq_some_iff.mp stored
  have among : (v, Cell.linked target) ∈ store.cells.entries := by simp [split]
  exact le_foldr_of_mem (fun entry => linkSize entry.2) among

theorem nesting_outlineVar_le (store : Store) (fuel : Nat) (v : MetaVar) :
    (store.outlineVar fuel v).nesting ≤ fuel * store.linkedSize := by
  induction fuel generalizing v with
  | zero => exact Nat.zero_le _
  | succ fuel inductionHypothesis =>
      rw [outlineVar]
      split
      · rename_i target stored
        have deeper := Ty.nesting_resolve_le _ inductionHypothesis target
        have small := size_le_linkedSize stored
        rw [Nat.succ_mul]
        omega
      · exact Nat.zero_le _

theorem nesting_outline_le (store : Store) (type : Ty MetaVar) :
    (store.outline type).nesting ≤ type.size + store.cells.size * store.linkedSize :=
  Ty.nesting_resolve_le _ (store.nesting_outlineVar_le _) type

end Store

theorem Template.nesting_outline_le (store : Store) (template : Template) :
    (template.outline store).body.nesting
      ≤ template.body.size + store.cells.size * store.linkedSize := by
  refine Ty.nesting_resolve_le _ ?_ template.body
  intro v
  cases v with
  | free v =>
      simp only [Ty.nesting_map]
      exact store.nesting_outlineVar_le _ v
  | bound param => exact Nat.zero_le _

/-! ## The cost of an alias -/

namespace Environment

variable {env : Environment} {Var : Type} [Inhabited Var]

/-- An expansion of a substituted type first goes through the type itself.  It ends there, or comes
down to a variable and goes on with what was substituted for it. -/
theorem RootWithin.of_bind {Code : Type} [Inhabited Code] {replace : Code → Ty Var}
    (unknown : replace default = .var default) {steps : Nat} {root : Ty Var} {type : Ty Code}
    (stands : env.RootWithin steps (type.bind replace) root) :
    (∃ inner, env.RootWithin steps type inner) ∨
      ∃ before after v, env.RootWithin before type (.var v) ∧
        env.RootWithin after (replace v) root ∧ steps = before + after := by
  induction steps generalizing type with
  | zero =>
      cases type with
      | var v => exact Or.inr ⟨0, 0, v, .here rfl, stands, rfl⟩
      | data con args =>
          cases stands with
          | here notAlias =>
              rw [Ty.bind, aliasAt?_data_eq_none] at notAlias
              exact Or.inl ⟨_, .here (aliasAt?_data_eq_none.mpr notAlias)⟩
      | _ => exact Or.inl ⟨_, .here rfl⟩
  | succ steps inductionHypothesis =>
      cases type with
      | var v => exact Or.inr ⟨0, steps + 1, v, .here rfl, stands, (Nat.zero_add _).symm⟩
      | data con args =>
          rw [Ty.bind, Ty.bindList_eq_map] at stands
          cases stands with
          | behind abbreviates isBody fits further =>
              rw [List.length_map] at fits
              rw [← Template.bind_fill unknown] at further
              rcases inductionHypothesis further with ⟨inner, ends⟩ | ⟨before, after, v, comes, ends, sum⟩
              · exact Or.inl ⟨inner, .behind abbreviates isBody fits ends⟩
              · refine Or.inr ⟨before + 1, after, v, .behind abbreviates isBody fits comes, ends, ?_⟩
                omega
      | _ => cases stands

/-- An application of an alias costs one step, what the body costs, and what an argument costs if
the body comes down to it. -/
theorem RootWithin.cost {steps : Nat} {con : TyCon} {args : List (Ty Var)} {root : Ty Var}
    (stands : env.RootWithin (steps + 1) (.data con args) root) :
    ∃ template ∈ env.bodies, ∃ cost inner, env.RootWithin cost template.body inner ∧
      (steps = cost ∨ ∃ arg ∈ args, ∃ after, env.RootWithin after arg root ∧ steps = cost + after) := by
  cases stands with
  | @behind _ _ _ template _ abbreviates isBody fits further =>
      refine ⟨template, env.body?_mem isBody, ?_⟩
      rw [Template.fill] at further
      have unknown : template.argument args default = .var default := rfl
      rcases RootWithin.of_bind unknown further with ⟨inner, ends⟩ | ⟨cost, after, v, comes, ends, sum⟩
      · exact ⟨steps, inner, ends, Or.inl rfl⟩
      · refine ⟨cost, .var v, comes, ?_⟩
        have ofUnknown : env.RootWithin after (.var default) root → steps = cost := by
          intro atOnce
          cases atOnce
          exact sum
        cases v with
        | free v => exact Or.inl (ofUnknown ends)
        | bound param =>
            cases given : (Store.pairUp template.params args).lookup param with
            | none =>
                simp only [Template.argument, given, Option.getD_none] at ends
                exact Or.inl (ofUnknown ends)
            | some arg =>
                simp only [Template.argument, given, Option.getD_some] at ends
                exact Or.inr ⟨arg, Template.mem_of_lookup_pairUp given, after, ends, sum⟩

/-- If every alias that an expansion can set off costs less than a bound, the expansion takes at most
so many steps for each application nested in the type. -/
theorem RootWithin.steps_le_nesting_mul {bound limit : Nat} :
    ∀ {steps : Nat} {type root : Ty Var}, steps ≤ limit →
      (∀ template ∈ env.bodies, ∀ cost inner, cost < limit →
        env.RootWithin cost template.body inner → cost < bound) →
      env.RootWithin steps type root → steps ≤ type.nesting * bound := by
  intro steps
  induction steps using Nat.strongRecOn with
  | ind steps inductionHypothesis =>
      intro type root within cheap stands
      cases steps with
      | zero => exact Nat.zero_le _
      | succ steps =>
          cases type with
          | data con args =>
              obtain ⟨template, isBody, cost, inner, bodyEnds, total⟩ := stands.cost
              have costLess : cost < bound := by
                refine cheap template isBody cost inner ?_ bodyEnds
                rcases total with rfl | ⟨_, _, after, _, rfl⟩ <;> omega
              rw [Ty.nesting, Nat.add_mul, Nat.one_mul]
              rcases total with rfl | ⟨arg, among, after, argEnds, rfl⟩
              · omega
              · have argCost : after ≤ arg.nesting * bound :=
                  inductionHypothesis after (by omega) (by omega) cheap argEnds
                have argNesting : arg.nesting * bound ≤ Ty.nestingList args * bound :=
                  Nat.mul_le_mul_right _ (Ty.nesting_le_nestingList among)
                omega
          | _ => cases stands

/-- The aliases of lower cost than a given one are fewer than those of lower cost than an alias that
sets it off, because it is one of them itself. -/
theorem cost_lt_pow {base : Nat}
    (bodies : ∀ template ∈ env.bodies, template.body.nesting < base) :
    ∀ (count : Nat) (candidates : List Template) (limit : Nat), candidates.length = count →
      (∀ template ∈ env.bodies, ∀ cost inner, cost < limit →
        env.RootWithin cost template.body inner → template ∈ candidates) →
      ∀ template ∈ env.bodies, ∀ cost inner, cost < limit →
        env.RootWithin cost template.body inner → cost < base ^ count := by
  intro count
  induction count with
  | zero =>
      intro candidates limit empty complete template isBody cost inner below ends
      have among := complete template isBody cost inner below ends
      rw [List.length_eq_zero_iff.mp empty] at among
      cases among
  | succ count inductionHypothesis =>
      intro candidates limit length complete template isBody cost inner below ends
      obtain ⟨before, after, rfl⟩ :=
        List.append_of_mem (complete template isBody cost inner below ends)
      have shorter : (before ++ after).length = count := by
        simp only [List.length_append, List.length_cons] at length ⊢
        omega
      -- An alias has no lower cost than itself, so one candidate less is left for those of lower cost.
      have cheaper := inductionHypothesis (before ++ after) cost shorter ?_
      · have bodyCost : cost ≤ template.body.nesting * base ^ count :=
          ends.steps_le_nesting_mul (Nat.le_refl _) cheaper
        have factor : (template.body.nesting + 1) * base ^ count ≤ base * base ^ count :=
          Nat.mul_le_mul_right _ (bodies template isBody)
        have positive : 0 < base ^ count := by
          have := bodies template isBody
          exact Nat.pow_pos (by omega)
        rw [Nat.add_mul, Nat.one_mul] at factor
        rw [Nat.pow_succ, Nat.mul_comm]
        omega
      · intro other otherBody otherCost otherInner lower otherEnds
        have among := complete other otherBody otherCost otherInner (by omega) otherEnds
        have different : other ≠ template := by
          rintro rfl
          have := (otherEnds.unique ends).1
          omega
        simp only [List.mem_append, List.mem_cons] at among ⊢
        rcases among with inBefore | same | inAfter
        · exact Or.inl inBefore
        · exact absurd same different
        · exact Or.inr inAfter

theorem RootWithin.steps_le_pow {steps : Nat} {type root : Ty Var}
    (stands : env.RootWithin steps type root) (base : Nat)
    (bodies : ∀ template ∈ env.bodies, template.body.nesting < base)
    (small : type.nesting ≤ base) : steps ≤ base ^ (env.bodies.length + 1) := by
  have cheap := cost_lt_pow bodies env.bodies.length env.bodies steps rfl
    fun template isBody _ _ _ _ => isBody
  have bounded := stands.steps_le_nesting_mul (Nat.le_refl _) cheap
  have factor : type.nesting * base ^ env.bodies.length ≤ base * base ^ env.bodies.length :=
    Nat.mul_le_mul_right _ small
  rw [Nat.pow_succ, Nat.mul_comm]
  omega

theorem steps_le_budget {env : Environment} {store : Store} {type : Ty MetaVar} {steps : Nat}
    {root : Ty Unit} (stands : (env.outline store).RootWithin steps (store.outline type) root) :
    steps ≤ env.budget store type := by
  have bounded := stands.steps_le_pow
    (1 + type.size + store.cells.size * store.linkedSize
      + env.bodies.foldr (fun template total => template.body.size + total) 0) ?_ ?_
  · simpa only [budget, outline, List.length_map, Nat.pow_eq] using bounded
  · intro template isBody
    obtain ⟨original, isOriginal, rfl⟩ := List.mem_map.mp isBody
    have nested := original.nesting_outline_le store
    have listed := le_foldr_of_mem (fun template => template.body.size) isOriginal
    omega
  · have nested := store.nesting_outline_le type
    omega

end Environment

end TypedMatch
