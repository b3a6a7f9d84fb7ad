import TypedMatch.Proofs.Environment.Root
import TypedMatch.Proofs.Store.Twins

/-!
# Unrolling a type step by step

A store sees the types of a later one but for the variables that have been minted since: those are free and
all alike.  What is at the root of a type that is seen in this way is found by following the links of the
earlier store, looking through synonyms, and putting the bodies of aliases in the place of their
applications.  Nothing else has a part in it, and there is at most one result.

Links may lead back to themselves and aliases may apply themselves, and still the root of a type may be found
without going round.  A variable at the root leads on in one way only, so where a root is found no variable
has been followed twice.
-/

set_option autoImplicit false

namespace TypedMatch

/-! ## What an earlier store sees -/

namespace Store

/-- A type as an earlier store sees it: all variables that have been minted since are alike. -/
def view (base : Store) (type : Ty MetaVar) : Ty (Option MetaVar) := type.map base.old?

theorem view_bare (base : Store) (type : Ty MetaVar) : base.view type.bare = (base.view type).bare :=
  (Ty.bare_map base.old? type).symm

theorem view_data (base : Store) (con : TyCon) (args : List (Ty MetaVar)) :
    base.view (.data con args) = .data con (args.map base.view) := by
  rw [view, Ty.map, Ty.bind, Ty.bindList_eq_map]
  rfl

theorem view_product (base : Store) (components : List (Ty MetaVar)) :
    base.view (.product components) = .product (components.map base.view) := by
  rw [view, Ty.map, Ty.bind, Ty.bindList_eq_map]
  rfl

/-- Whether a type that is seen shows what it is: it is no synonym, and no variable with a link. -/
def Shows (base : Store) : Ty (Option MetaVar) → Prop
  | .var (some v) => ∃ record, base.cells.get? v = some (.free record)
  | .synonym _ _ _ => False
  | _ => True

/-- What links and synonyms at the root of a type lead to, and the variables that are followed in turn. -/
inductive Unfolds (base : Store) : List MetaVar → Ty (Option MetaVar) → Ty (Option MetaVar) → Prop where
  | here {seen : Ty (Option MetaVar)} : base.Shows seen → Unfolds base [] seen seen
  | synonym {links : List MetaVar} {con : TyCon} {args : List (Ty (Option MetaVar))}
      {expansion root : Ty (Option MetaVar)} : Unfolds base links expansion root →
      Unfolds base links (.synonym con args expansion) root
  | link {links : List MetaVar} {v : MetaVar} {target : Ty MetaVar} {root : Ty (Option MetaVar)} :
      base.Owns [v] → base.cells.get? v = some (.linked target) →
      Unfolds base links (base.view target) root → Unfolds base (v :: links) (.var (some v)) root

variable {base : Store} {links others : List MetaVar} {seen root other : Ty (Option MetaVar)}

theorem Unfolds.unique (unfolds : base.Unfolds links seen root)
    (otherwise : base.Unfolds others seen other) : links = others ∧ root = other := by
  induction unfolds generalizing others other with
  | here shows =>
      cases otherwise with
      | here _ => exact ⟨rfl, rfl⟩
      | synonym _ => exact shows.elim
      | link _ stored _ =>
          obtain ⟨record, free⟩ := shows
          cases stored.symm.trans free
  | synonym _ inductionHypothesis =>
      cases otherwise with
      | here shows => exact shows.elim
      | synonym inner => exact inductionHypothesis inner
  | link _ stored _ inductionHypothesis =>
      cases otherwise with
      | here shows =>
          obtain ⟨record, free⟩ := shows
          cases stored.symm.trans free
      | link _ otherStored inner =>
          cases stored.symm.trans otherStored
          obtain ⟨rfl, sameRoot⟩ := inductionHypothesis inner
          exact ⟨rfl, sameRoot⟩

theorem Unfolds.shows (unfolds : base.Unfolds links seen root) : base.Shows root := by
  induction unfolds with
  | here shows => exact shows
  | synonym _ inductionHypothesis => exact inductionHypothesis
  | link _ _ _ inductionHypothesis => exact inductionHypothesis

theorem Unfolds.behind {before after : List MetaVar} {v : MetaVar}
    (unfolds : base.Unfolds links seen root) (split : links = before ++ v :: after) :
    base.Unfolds (v :: after) (.var (some v)) root := by
  induction unfolds generalizing before with
  | here _ => exact absurd split (by simp)
  | synonym _ inductionHypothesis => exact inductionHypothesis split
  | link owned stored inner inductionHypothesis =>
      cases before with
      | nil =>
          cases split
          exact .link owned stored inner
      | cons first before => exact inductionHypothesis (List.cons.inj split).2

theorem Unfolds.owned (unfolds : base.Unfolds links seen root) :
    ∀ v ∈ links, base.Owns [v] ∧ ∃ target, base.cells.get? v = some (.linked target) := by
  induction unfolds with
  | here _ => exact List.forall_mem_nil _
  | synonym _ inductionHypothesis => exact inductionHypothesis
  | link owned stored _ inductionHypothesis =>
      exact List.forall_mem_cons.mpr ⟨⟨owned, _, stored⟩, inductionHypothesis⟩

theorem unfolds_bare_iff : base.Unfolds links seen.bare root ↔ base.Unfolds links seen root := by
  fun_induction Ty.bare seen with
  | case1 con args expansion inductionHypothesis =>
      rw [inductionHypothesis]
      constructor
      · exact .synonym
      · intro unfolds
        cases unfolds with
        | here shows => exact shows.elim
        | synonym inner => exact inner
  | case2 => exact Iff.rfl

end Store

theorem nodup_of_unique {Item : Type} {links : List Item} (leads : Item → List Item → Prop)
    (unique : ∀ {item way other}, leads item way → leads item other → way = other)
    (each : ∀ before item after, links = before ++ item :: after → leads item (item :: after)) :
    links.Nodup := by
  induction links with
  | nil => exact List.nodup_nil
  | cons item rest inductionHypothesis =>
      refine List.nodup_cons.mpr ⟨?_, ?_⟩
      · intro again
        obtain ⟨before, after, rfl⟩ := List.append_of_mem again
        have sameWay := unique (each [] item _ rfl) (each (item :: before) item after rfl)
        have sameLength := congrArg List.length sameWay
        simp only [List.length_cons, List.length_append] at sameLength
        omega
      · refine inductionHypothesis fun before place after split => ?_
        exact each (item :: before) place after (by rw [split, List.cons_append])

theorem Store.Unfolds.nodup {base : Store} {links : List MetaVar} {seen root : Ty (Option MetaVar)}
    (unfolds : base.Unfolds links seen root) : links.Nodup :=
  nodup_of_unique (fun v way => base.Unfolds way (.var (some v)) root)
    (fun first second => (first.unique second).1) fun _ _ _ => unfolds.behind

/-! ## Aliases -/

/-- A template with types for its parameters, for its other variables, and for parameters that are given
none. -/
def Template.fillWith {Var : Type} (template : Template) (free : MetaVar → Ty Var) (unknown : Ty Var)
    (args : List (Ty Var)) : Ty Var :=
  template.body.bind fun
    | .free v => free v
    | .bound param => ((Store.pairUp template.params args).lookup param).getD unknown

theorem Template.bind_fillWith {Var NewVar : Type} (template : Template) (free : MetaVar → Ty Var)
    (unknown : Ty Var) (args : List (Ty Var)) (replace : Var → Ty NewVar) :
    (template.fillWith free unknown args).bind replace
      = template.fillWith (fun v => (free v).bind replace) (unknown.bind replace)
        (args.map fun arg => arg.bind replace) := by
  rw [fillWith, fillWith, Ty.bind_bind]
  apply Ty.bind_congr _
  intro v _
  cases v with
  | free v => rfl
  | bound param =>
      simp only [lookup_pairUp_map]
      cases (Store.pairUp template.params args).lookup param with
      | none => rfl
      | some arg => rfl

def Template.viewWith (template : Template) (args : List (Ty (Option MetaVar))) : Ty (Option MetaVar) :=
  template.fillWith (fun v => .var (some v)) (.var none) args

namespace Environment

/-- What is at the root of a type once links and synonyms have been looked through and so many aliases
have given way to their bodies, and the variables that are followed on the way. -/
inductive Unrolls (env : Environment) (base : Store) :
    List MetaVar → Nat → Ty (Option MetaVar) → Ty (Option MetaVar) → Prop where
  | here {links : List MetaVar} {seen root : Ty (Option MetaVar)} : base.Unfolds links seen root →
      env.aliasAt? root = none → Unrolls env base links 0 seen root
  | behind {links more : List MetaVar} {steps : Nat} {seen root : Ty (Option MetaVar)} {con : TyCon}
      {args : List (Ty (Option MetaVar))} {template : Template} :
      base.Unfolds links seen (.data con args) → env.abbreviates con = true →
      env.body? con = some template → template.params.length = args.length →
      Unrolls env base more steps (template.viewWith args) root →
      Unrolls env base (links ++ more) (steps + 1) seen root

variable {env : Environment} {base : Store} {links others : List MetaVar} {steps count : Nat}
  {seen root other : Ty (Option MetaVar)}

theorem Unrolls.unique (unrolls : env.Unrolls base links steps seen root)
    (otherwise : env.Unrolls base others count seen other) : links = others ∧ root = other := by
  induction unrolls generalizing others count other with
  | here unfolds notAlias =>
      cases otherwise with
      | here otherUnfolds _ => exact unfolds.unique otherUnfolds
      | behind otherUnfolds abbreviates _ _ _ =>
          obtain ⟨_, rfl⟩ := unfolds.unique otherUnfolds
          cases abbreviates.symm.trans (aliasAt?_data_eq_none.mp notAlias)
  | behind unfolds abbreviates isBody _ _ inductionHypothesis =>
      cases otherwise with
      | here otherUnfolds notAlias =>
          obtain ⟨_, rfl⟩ := unfolds.unique otherUnfolds
          cases abbreviates.symm.trans (aliasAt?_data_eq_none.mp notAlias)
      | behind otherUnfolds _ otherBody _ further =>
          obtain ⟨rfl, sameRoot⟩ := unfolds.unique otherUnfolds
          cases sameRoot
          cases isBody.symm.trans otherBody
          obtain ⟨rfl, sameRoot⟩ := inductionHypothesis further
          exact ⟨rfl, sameRoot⟩

theorem Unrolls.of_unfolds {middle : Ty (Option MetaVar)} {all : List MetaVar}
    (unfolds : base.Unfolds links seen middle) (otherwise : base.Unfolds others other middle)
    (unrolls : env.Unrolls base all steps seen root) :
    ∃ way, env.Unrolls base way steps other root := by
  cases unrolls with
  | here toRoot notAlias =>
      obtain ⟨_, rfl⟩ := toRoot.unique unfolds
      exact ⟨others, .here otherwise notAlias⟩
  | behind toAlias abbreviates isBody fits further =>
      obtain ⟨_, rfl⟩ := toAlias.unique unfolds
      exact ⟨_, .behind otherwise abbreviates isBody fits further⟩

theorem Unrolls.behind_link (unrolls : env.Unrolls base links steps seen root)
    (before : List MetaVar) (v : MetaVar) (after : List MetaVar) (split : links = before ++ v :: after) :
    ∃ left, env.Unrolls base (v :: after) left (.var (some v)) root := by
  induction unrolls generalizing before after with
  | here unfolds notAlias => exact ⟨0, .here (unfolds.behind split) notAlias⟩
  | behind unfolds abbreviates isBody fits further inductionHypothesis =>
      rcases List.append_eq_append_iff.mp split with ⟨inside, _, inMore⟩ | ⟨inside, isFirst, rest⟩
      · exact inductionHypothesis inside after inMore
      · cases inside with
        | nil => exact inductionHypothesis [] after rest.symm
        | cons first inside =>
            cases rest
            exact ⟨_, .behind (unfolds.behind isFirst) abbreviates isBody fits further⟩

theorem Unrolls.owned (unrolls : env.Unrolls base links steps seen root) :
    ∀ v ∈ links, base.Owns [v] ∧ ∃ target, base.cells.get? v = some (.linked target) := by
  induction unrolls with
  | here unfolds _ => exact unfolds.owned
  | behind unfolds _ _ _ _ inductionHypothesis =>
      exact List.forall_mem_append.mpr ⟨unfolds.owned, inductionHypothesis⟩

theorem Unrolls.nodup (unrolls : env.Unrolls base links steps seen root) : links.Nodup :=
  nodup_of_unique (fun v way => ∃ left, env.Unrolls base way left (.var (some v)) root)
    (fun ⟨_, first⟩ ⟨_, second⟩ => (first.unique second).1) unrolls.behind_link

end Environment

end TypedMatch
