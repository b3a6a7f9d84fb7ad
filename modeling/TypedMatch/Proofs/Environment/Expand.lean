import TypedMatch.Proofs.Environment.Budget
import TypedMatch.Proofs.Scheme.Instantiation

/-!
# Expansions succeed

On a store without circular links, an owned type whose outline stands for something is expanded to a
type of that outline.  Along the way the store only grows.  The environment is looked at from a store
that the present one extends, so that one outline of it serves a whole check.
-/

set_option autoImplicit false

namespace TypedMatch

namespace Environment

/-- Whether a store owns every variable that the declared types mention. -/
structure OwnedBy (env : Environment) (store : Store) : Prop where
  bodies : ∀ {con : TyCon} {template : Template}, env.body? con = some template →
    store.Owns template.vars
  payloads : ∀ {con : TyCon} {constructors : List Constructor},
    env.constructors? con = some constructors → ∀ constructor ∈ constructors,
      store.Owns constructor.payload.vars

end Environment

variable {env : Environment} {store base : Store}

theorem Template.outline_of_extends (acyclic : base.Acyclic) (extension : store.Extends base)
    {template : Template} (owned : base.Owns template.vars) :
    template.outline store = template.outline base := by
  rw [outline, outline]
  congr 1
  apply Ty.resolve_congr _
  intro v occurs
  cases v with
  | free v =>
      have same : store.outlineOf v = base.outlineOf v :=
        Store.outlineOf_of_extends acyclic extension (owned.singleton (mem_vars occurs))
      simp only [same]
  | bound param => rfl

namespace Environment

theorem RootWithin.of_extends {Var : Type} [Inhabited Var] (acyclic : base.Acyclic)
    (extension : store.Extends base) (owned : env.OwnedBy base) {steps : Nat} {type root : Ty Var}
    (stands : (env.outline base).RootWithin steps type root) :
    (env.outline store).RootWithin steps type root := by
  induction stands with
  | here notAlias => exact .here notAlias
  | behind abbreviates isBody fits _ inductionHypothesis =>
      obtain ⟨template, isOriginal, rfl⟩ := Option.map_eq_some_iff.mp isBody
      have same := Template.outline_of_extends acyclic extension (owned.bodies isOriginal)
      refine .behind abbreviates (Option.map_eq_some_iff.mpr ⟨template, isOriginal, same⟩) fits ?_
      exact inductionHypothesis

theorem aliasAt?_eq_none_of_outline {root : Ty MetaVar}
    (notAlias : (env.outline base).aliasAt? (store.outline root) = none) :
    env.aliasAt? root = none := by
  cases root with
  | data con args =>
      rw [Store.outline_data, aliasAt?_data_eq_none] at notAlias
      exact aliasAt?_data_eq_none.mpr notAlias
  | _ => rfl

theorem aliasAt?_outline_eq_none {root : Ty MetaVar} (settled : store.Settled root)
    (notAlias : env.aliasAt? root = none) :
    (env.outline base).aliasAt? (store.outline root) = none := by
  cases root with
  | data con args =>
      rw [Store.outline_data, aliasAt?_data_eq_none]
      exact aliasAt?_data_eq_none.mp notAlias
  | var v =>
      rw [settled.outline_var]
      rfl
  | synonym _ _ _ => exact settled.elim
  | _ => rfl

theorem eq_data_of_aliasAt? {root : Ty MetaVar} {con : TyCon} {args : List (Ty MetaVar)}
    (isAlias : env.aliasAt? root = some (con, args)) :
    root = .data con args ∧ env.abbreviates con = true := by
  cases root with
  | data head given =>
      rw [aliasAt?, Option.ite_none_right_eq_some] at isAlias
      obtain ⟨abbreviates, same⟩ := isAlias
      cases same
      exact ⟨rfl, abbreviates⟩
  | _ => cases isAlias

private theorem expandWithin_of_rootWithin (acyclic : base.Acyclic) (owned : env.OwnedBy base)
    (level : Level) {steps : Nat} {outlined root : Ty Unit}
    (stands : (env.outline base).RootWithin steps outlined root) :
    ∀ (fuel : Nat) (store : Store) (type : Ty MetaVar), steps ≤ fuel → store.Extends base →
      store.Owns type.leaves → store.outline type = outlined →
      ∃ found grown, env.expandWithin level fuel store type = .ok (found, grown) ∧
        grown.Extends store ∧ grown.Owns found.leaves ∧ grown.outline found = root ∧
        grown.Settled found := by
  induction stands with
  | here notAlias =>
      intro fuel store type enough extension typeOwned rfl
      obtain ⟨found, unfolds, sameOutline, foundOwned, settled⟩ :=
        Store.unfold_of_owns (extension.acyclic acyclic) typeOwned
      rw [← sameOutline] at notAlias
      refine ⟨found, store, ?_, .refl store, foundOwned, sameOutline, settled⟩
      rw [expandWithin, unfolds]
      simp only [bind, Except.bind, aliasAt?_eq_none_of_outline notAlias]
      rfl
  | @behind steps con args outlinedBody root abbreviates isBody fits _ inductionHypothesis =>
      intro fuel store type enough extension typeOwned isData
      obtain ⟨first, unfolds, sameOutline, firstOwned, settled⟩ :=
        Store.unfold_of_owns (extension.acyclic acyclic) typeOwned
      obtain ⟨given, rfl, rfl⟩ := settled.eq_data (sameOutline.trans isData)
      obtain ⟨template, isOriginal, rfl⟩ := Option.map_eq_some_iff.mp isBody
      rw [List.length_map] at fits
      have argsOwned : ∀ arg ∈ given, store.Owns arg.leaves := firstOwned.of_leavesList
      obtain ⟨body, grown, applies, growth, bodyOwned, bodyOutline⟩ :=
        Store.apply_of_owns acyclic extension (owned.bodies isOriginal) argsOwned fits level .allowed
      cases fuel with
      | zero => exact absurd enough (Nat.not_succ_le_zero _)
      | succ fuel =>
          obtain ⟨found, last, expands, further, foundOwned, foundOutline, foundSettled⟩ :=
            inductionHypothesis fuel grown body (Nat.le_of_succ_le_succ enough)
              (growth.trans extension) bodyOwned bodyOutline
          refine ⟨found, last, ?_, further.trans growth, foundOwned, foundOutline, foundSettled⟩
          have isAlias : env.aliasAt? (.data con given) = some (con, given) := if_pos abbreviates
          rw [expandWithin, unfolds]
          simp only [bind, Except.bind, isAlias, isOriginal, applies]
          exact expands

/-- An owned type is expanded to a type whose outline is what the outline of the type stands for. -/
theorem expand_of_root (acyclic : base.Acyclic) (owned : env.OwnedBy base) (level : Level)
    (extension : store.Extends base) {type : Ty MetaVar} (typeOwned : store.Owns type.leaves)
    {root : Ty Unit} (stands : (env.outline base).Root (store.outline type) root) :
    ∃ found grown, env.expand level store type = .ok (found, grown) ∧ grown.Extends store ∧
      grown.Owns found.leaves ∧ grown.outline found = root ∧ grown.Settled found := by
  obtain ⟨steps, stands⟩ := stands
  obtain ⟨first, unfolds, sameOutline, firstOwned, settled⟩ :=
    Store.unfold_of_owns (extension.acyclic acyclic) typeOwned
  rw [← sameOutline] at stands
  cases isAlias : env.aliasAt? first with
  | none =>
      have notAlias : (env.outline base).aliasAt? (store.outline first) = none :=
        aliasAt?_outline_eq_none settled isAlias
      obtain ⟨_, rfl⟩ := stands.unique (.here notAlias)
      refine ⟨first, store, ?_, .refl store, firstOwned, rfl, settled⟩
      rw [expand, unfolds]
      simp only [bind, Except.bind, isAlias]
      rfl
  | some application =>
      have enough : steps ≤ env.budget store first :=
        steps_le_budget (stands.of_extends acyclic extension owned)
      obtain ⟨found, grown, expands, further⟩ :=
        expandWithin_of_rootWithin acyclic owned level stands _ store first enough extension
          firstOwned rfl
      refine ⟨found, grown, ?_, further⟩
      rw [expand, unfolds]
      simp only [bind, Except.bind, isAlias]
      exact expands

private theorem root_of_expandWithin (acyclic : base.Acyclic) (owned : env.OwnedBy base)
    (level : Level) :
    ∀ (fuel : Nat) (store : Store) (type : Ty MetaVar) {found : Ty MetaVar} {grown : Store},
      store.Extends base → store.Owns type.leaves →
      env.expandWithin level fuel store type = .ok (found, grown) →
      (env.outline base).Root (store.outline type) (grown.outline found) := by
  intro fuel
  induction fuel using Nat.strongRecOn with
  | ind fuel inductionHypothesis =>
      intro store type found grown extension typeOwned expands
      obtain ⟨first, unfolds, sameOutline, firstOwned, settled⟩ :=
        Store.unfold_of_owns (extension.acyclic acyclic) typeOwned
      rw [expandWithin, unfolds] at expands
      simp only [bind, Except.bind] at expands
      rw [← sameOutline]
      split at expands
      · rename_i notAlias
        cases expands
        exact root_self (aliasAt?_outline_eq_none settled notAlias)
      · rename_i con given isAlias
        obtain ⟨rfl, abbreviates⟩ := eq_data_of_aliasAt? isAlias
        split at expands
        · cases expands
        · rename_i template isBody
          cases fuel with
          | zero => cases expands
          | succ fuel =>
              by_cases fits : template.params.length = given.length
              · obtain ⟨body, next, applies, growth, bodyOwned, bodyOutline⟩ :=
                  Store.apply_of_owns acyclic extension (owned.bodies isBody)
                    firstOwned.of_leavesList fits level .allowed
                simp only [applies] at expands
                obtain ⟨steps, further⟩ :=
                  inductionHypothesis fuel (Nat.lt_succ_self _) next body (growth.trans extension)
                    bodyOwned expands
                rw [bodyOutline] at further
                have outlinedBody : (env.outline base).body? con = some (template.outline base) :=
                  Option.map_eq_some_iff.mpr ⟨template, isBody, rfl⟩
                have outlinedFits : (template.outline base).params.length
                    = (given.map store.outline).length := fits.trans (List.length_map _).symm
                rw [Store.outline_data]
                exact ⟨steps + 1, .behind abbreviates outlinedBody outlinedFits further⟩
              · rw [Store.apply, Store.instantiateAt, if_neg fits] at expands
                cases expands

/-- What an owned type is expanded to has the outline that the outline of the type stands for. -/
theorem root_of_expand (acyclic : base.Acyclic) (owned : env.OwnedBy base) {level : Level}
    (extension : store.Extends base) {type found : Ty MetaVar} {grown : Store}
    (typeOwned : store.Owns type.leaves) (expands : env.expand level store type = .ok (found, grown)) :
    (env.outline base).Root (store.outline type) (grown.outline found) := by
  obtain ⟨first, unfolds, sameOutline, firstOwned, settled⟩ :=
    Store.unfold_of_owns (extension.acyclic acyclic) typeOwned
  rw [expand, unfolds] at expands
  simp only [bind, Except.bind] at expands
  rw [← sameOutline]
  split at expands
  · rename_i notAlias
    cases expands
    exact root_self (aliasAt?_outline_eq_none settled notAlias)
  · exact root_of_expandWithin acyclic owned level _ store first extension firstOwned expands

theorem expand_error (acyclic : base.Acyclic) (owned : env.OwnedBy base) (level : Level)
    (extension : store.Extends base) {type : Ty MetaVar} (typeOwned : store.Owns type.leaves)
    (rootless : ∀ root, ¬ (env.outline base).Root (store.outline type) root) :
    ∃ fault, env.expand level store type = .error fault := by
  cases expands : env.expand level store type with
  | error fault => exact ⟨fault, rfl⟩
  | ok result =>
      exact absurd (root_of_expand acyclic owned extension typeOwned expands) (rootless _)

end Environment

end TypedMatch
