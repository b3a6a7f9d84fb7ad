import TypedMatch.Proofs.Declaration.Built
import TypedMatch.Proofs.Declaration.Layered

/-!
# Aliases declared in one run

A run declares variants and aliases one after the other on one store, and gives variants more constructors.
If the body of every alias mentions no variable of the store and applies only types declared before it, as
many arguments as an alias among them asks for, then the aliases lie in layers, and looking through links,
synonyms and aliases at the root of a type always ends.
-/

set_option autoImplicit false

namespace TypedMatch

namespace Declarations

/-- Whether a body may be given to the alias that is declared next: it mentions no variable of a store, and
applies only types that are already declared, each alias to as many arguments as it has parameters. -/
structure Admits (declarations : Declarations) (store : Store) (body : Ty SchemeVar) : Prop where
  closed : ∀ v, .free v ∉ body.leaves
  earlier : ∀ application ∈ body.applications, application.1.number < store.nextCon
  fits : ∀ application ∈ body.applications, declarations.toEnvironment.Fits application

/-- The declarations that a run makes on one store, together with the store.  Between two declarations
anything may be done with the store that does not mint an old number again. -/
inductive Registers : Declarations → Store → Prop where
  | start (store : Store) : Registers .empty store
  | meanwhile {declarations : Declarations} {store later : Store} : Registers declarations store →
      store.nextCon ≤ later.nextCon → Registers declarations later
  | addVariant {declarations : Declarations} {store : Store} (name : String) (arity : Nat) :
      Registers declarations store →
      Registers (declarations.addVariant store name arity).2.1 (declarations.addVariant store name arity).2.2
  | addAlias {Error : Type} {declarations made : Declarations} {store grown : Store} {name : String}
      {arity : Nat} {body : Declared → Except Error (Ty SchemeVar)} {declared : Declared} :
      Registers declarations store →
      (∀ type, body (store.newDeclared name arity).1 = .ok type → declarations.Admits store type) →
      declarations.addAlias store name arity body = .ok (declared, made, grown) → Registers made grown
  | extend {declarations made : Declarations} {store : Store} {con : TyCon} {name : String}
      {payload : Ty SchemeVar} : Registers declarations store →
      declarations.extend con name payload = .ok made → Registers made store

/-- Whether all declared types have numbers that the store has minted, and aliases are closed and lie in
layers. -/
structure Stratified (declarations : Declarations) (store : Store) : Prop where
  minted : ∀ {con : TyCon} {declaration : Declaration}, declarations.get? con = some declaration →
    con.number < store.nextCon
  closed : ∀ {con : TyCon} {template : Template}, declarations.body? con = some template →
    ∀ v, .free v ∉ template.body.leaves
  layered : declarations.toEnvironment.Layered

variable {declarations made : Declarations} {store grown : Store} {con : TyCon}

/-! ## What declaring keeps -/

theorem body?_set (declarations : Declarations) (written con : TyCon) (declaration : Declaration) :
    (declarations.set written declaration).body? con
      = if con.number = written.number then declaration.body? else declarations.body? con := by
  rw [body?, get?_set]
  by_cases same : con.number = written.number
  · rw [if_pos same, if_pos same]
    rfl
  · rw [if_neg same, if_neg same]
    rfl

theorem Stratified.lt_of_body? (stratified : declarations.Stratified store) {template : Template}
    (isBody : declarations.body? con = some template) : con.number < store.nextCon := by
  obtain ⟨declaration, stored, _⟩ := Option.bind_eq_some_iff.mp isBody
  exact stratified.minted stored

theorem defined (declarations : Declarations) {con : TyCon}
    (abbreviates : declarations.toEnvironment.abbreviates con = true) :
    ∃ template, declarations.toEnvironment.body? con = some template :=
  Option.isSome_iff_exists.mp abbreviates

theorem Stratified.declare (stratified : declarations.Stratified store) {written : TyCon}
    {declaration : Declaration} (isNext : written.number = store.nextCon)
    (grows : store.nextCon < grown.nextCon)
    (admits : ∀ template, declaration.body? = some template → declarations.Admits store template.body) :
    (declarations.set written declaration).Stratified grown := by
  have old {other : TyCon} (low : other.number < store.nextCon) :
      (declarations.set written declaration).body? other = declarations.body? other := by
    rw [body?_set, if_neg (by omega)]
  have fitsStill {application : TyCon × Nat} (low : application.1.number < store.nextCon)
      (fits : declarations.toEnvironment.Fits application) :
      (declarations.set written declaration).toEnvironment.Fits application := by
    intro template isBody
    exact fits template ((old low).symm.trans isBody)
  have bodies {con : TyCon} {template : Template}
      (isBody : (declarations.set written declaration).body? con = some template) :
      (con.number = store.nextCon ∧ declarations.Admits store template.body) ∨
        declarations.body? con = some template := by
    rw [body?_set, isNext] at isBody
    by_cases same : con.number = store.nextCon
    · rw [if_pos same] at isBody
      exact .inl ⟨same, admits template isBody⟩
    · rw [if_neg same] at isBody
      exact .inr isBody
  refine ⟨?_, ?_, ⟨defined _, ?_, ?_⟩⟩
  · intro con other stored
    rw [get?_set] at stored
    by_cases same : con.number = written.number
    · omega
    · rw [if_neg same] at stored
      have := stratified.minted stored
      omega
  · intro con template isBody
    rcases bodies isBody with ⟨_, admitted⟩ | isOld
    · exact admitted.closed
    · exact stratified.closed isOld
  · intro con template isBody application among
    rcases bodies isBody with ⟨isNew, admitted⟩ | isOld
    · rw [isNew]
      exact admitted.earlier application among
    · exact stratified.layered.lower isOld application among
  · intro con template isBody application among
    rcases bodies isBody with ⟨_, admitted⟩ | isOld
    · exact fitsStill (admitted.earlier application among) (admitted.fits application among)
    · have lower := stratified.layered.lower isOld application among
      have low := stratified.lt_of_body? isOld
      exact fitsStill (by omega) (stratified.layered.fits isOld application among)

theorem body?_extend {name : String} {payload : Ty SchemeVar}
    (extended : declarations.extend con name payload = .ok made) (other : TyCon) :
    made.body? other = declarations.body? other := by
  obtain ⟨params, constructors, stored, _, get?_made, _⟩ := exists_of_extend extended
  rw [body?, body?, get?_made]
  by_cases same : other.number = con.number
  · rw [if_pos same, get?_congr same, stored]
    rfl
  · rw [if_neg same]

theorem Stratified.extend (stratified : declarations.Stratified store) {name : String}
    {payload : Ty SchemeVar} (extended : declarations.extend con name payload = .ok made) :
    made.Stratified store := by
  have sameBody := body?_extend extended
  have fitsStill {application : TyCon × Nat} (fits : declarations.toEnvironment.Fits application) :
      made.toEnvironment.Fits application := by
    intro template isBody
    exact fits template ((sameBody _).symm.trans isBody)
  refine ⟨?_, ?_, ⟨defined made, ?_, ?_⟩⟩
  · intro other declaration stored
    obtain ⟨params, constructors, isVariant, _, get?_made, _⟩ := exists_of_extend extended
    rw [get?_made] at stored
    by_cases same : other.number = con.number
    · rw [same]
      exact stratified.minted isVariant
    · rw [if_neg same] at stored
      exact stratified.minted stored
  · intro other template isBody
    exact stratified.closed ((sameBody other).symm.trans isBody)
  · intro other template isBody application among
    exact stratified.layered.lower ((sameBody other).symm.trans isBody) application among
  · intro other template isBody application among
    exact fitsStill (stratified.layered.fits ((sameBody other).symm.trans isBody) application among)

theorem Registers.stratified (registers : declarations.Registers store) :
    declarations.Stratified store := by
  induction registers with
  | start store =>
      exact ⟨nofun, nofun, ⟨nofun, nofun, nofun⟩⟩
  | meanwhile _ grows inductionHypothesis =>
      exact ⟨fun stored => Nat.lt_of_lt_of_le (inductionHypothesis.minted stored) grows,
        inductionHypothesis.closed, inductionHypothesis.layered⟩
  | addVariant name arity _ inductionHypothesis =>
      exact inductionHypothesis.declare rfl (Nat.lt_succ_self _) nofun
  | addAlias _ admits added inductionHypothesis =>
      obtain ⟨type, isType, finished⟩ := ok_of_bind added
      cases finished
      refine inductionHypothesis.declare rfl (Nat.lt_succ_self _) ?_
      rintro template ⟨⟩
      exact admits type isType
  | extend _ extended inductionHypothesis => exact inductionHypothesis.extend extended

/-! ## Outlines -/

theorem Stratified.layered_outline (stratified : declarations.Stratified store) (base : Store) :
    (declarations.toEnvironment.outline base).Layered := by
  have applied {con : TyCon} {template : Template} (isBody : declarations.body? con = some template)
      {application : TyCon × Nat} (among : application ∈ (template.outline base).body.applications) :
      application ∈ template.body.applications := by
    rcases Ty.appliedIn_of_resolve template.body among with inBody | ⟨v, occurs, inImage⟩
    · exact inBody
    · cases v with
      | free v => exact absurd occurs (stratified.closed isBody v)
      | bound param => cases inImage
  have outlined {con : TyCon} {template : Template}
      (isBody : (declarations.toEnvironment.outline base).body? con = some template) :
      ∃ original, declarations.body? con = some original ∧ original.outline base = template :=
    Option.map_eq_some_iff.mp isBody
  refine ⟨?_, ?_, ?_⟩
  · intro con abbreviates
    obtain ⟨template, isBody⟩ := declarations.defined abbreviates
    exact ⟨template.outline base, Option.map_eq_some_iff.mpr ⟨template, isBody, rfl⟩⟩
  · intro con template isBody application among
    obtain ⟨original, isOriginal, rfl⟩ := outlined isBody
    exact stratified.layered.lower isOriginal application (applied isOriginal among)
  · intro con template isBody application among other otherBody
    obtain ⟨original, isOriginal, rfl⟩ := outlined isBody
    obtain ⟨otherOriginal, isOtherOriginal, rfl⟩ := outlined otherBody
    exact stratified.layered.fits isOriginal application (applied isOriginal among) otherOriginal
      isOtherOriginal

end Declarations

/-! ## Expansions -/

namespace Environment

variable {env : Environment} {level : Level} {store grown : Store} {type root : Ty MetaVar}

theorem aliasAt?_of_expandWithin {fuel : Nat}
    (expands : env.expandWithin level fuel store type = .ok (root, grown)) :
    env.aliasAt? root = none := by
  induction fuel using Nat.strongRecOn generalizing store type with
  | ind fuel inductionHypothesis =>
      rw [expandWithin] at expands
      obtain ⟨first, _, expands⟩ := ok_of_bind expands
      split at expands
      · rename_i notAlias
        cases expands
        exact notAlias
      · split at expands
        · cases expands
        · cases fuel with
          | zero => cases expands
          | succ fuel =>
              obtain ⟨⟨body, next⟩, _, further⟩ := ok_of_bind expands
              exact inductionHypothesis fuel (Nat.lt_succ_self _) further

theorem expandWithin_of_le {fuel more : Nat} (enough : fuel ≤ more)
    (expands : env.expandWithin level fuel store type = .ok (root, grown)) :
    env.expandWithin level more store type = .ok (root, grown) := by
  induction fuel using Nat.strongRecOn generalizing more store type with
  | ind fuel inductionHypothesis =>
      rw [expandWithin] at expands ⊢
      obtain ⟨first, unfolds, expands⟩ := ok_of_bind expands
      rw [unfolds]
      simp only [bind, Except.bind]
      split at expands
      · exact expands
      · rename_i con args isAlias
        split at expands
        · cases expands
        · rename_i template isBody
          cases fuel with
          | zero => cases expands
          | succ fuel =>
              cases more with
              | zero => exact absurd enough (Nat.not_succ_le_zero _)
              | succ more =>
                  obtain ⟨⟨body, next⟩, applies, further⟩ := ok_of_bind expands
                  simp only [applies]
                  exact inductionHypothesis fuel (Nat.lt_succ_self _)
                    (Nat.le_of_succ_le_succ enough) further

theorem exists_rounds_of_expand (acyclic : store.Acyclic) (owned : store.Owns type.leaves)
    (expands : env.expand level store type = .ok (root, grown)) :
    ∃ rounds, ∀ fuel, rounds ≤ fuel →
      env.expandWithin level fuel store type = .ok (root, grown) := by
  obtain ⟨first, unfolds, _, _, settled⟩ := Store.unfold_of_owns acyclic owned
  have again : store.unfold first = .ok first := by
    have bare : first.bare = first := by
      cases first with
      | synonym => exact settled.elim
      | _ => rfl
    rw [Store.unfold, Store.unfoldWithin_of_settled (by rwa [bare]), bare]
  have same (fuel : Nat) :
      env.expandWithin level fuel store first = env.expandWithin level fuel store type := by
    rw [expandWithin, expandWithin, unfolds, again]
  rw [expand, unfolds] at expands
  simp only [bind, Except.bind] at expands
  split at expands
  · rename_i notAlias
    refine ⟨0, fun fuel _ => ?_⟩
    rw [expandWithin, unfolds]
    simp only [bind, Except.bind, notAlias]
    exact expands
  · refine ⟨env.budget store first, fun fuel enough => ?_⟩
    rw [← same]
    exact expandWithin_of_le enough expands

def withoutConstructors (env : Environment) : Environment := { env with constructors? := fun _ => none }

theorem expandWithin_withoutConstructors (env : Environment) (level : Level) (fuel : Nat)
    (store : Store) (type : Ty MetaVar) :
    env.withoutConstructors.expandWithin level fuel store type
      = env.expandWithin level fuel store type := by
  induction fuel generalizing store type with
  | zero =>
      rw [expandWithin, expandWithin]
      rfl
  | succ fuel inductionHypothesis =>
      rw [expandWithin, expandWithin]
      simp only [inductionHypothesis]
      rfl

theorem expand_withoutConstructors (env : Environment) (level : Level) (store : Store)
    (type : Ty MetaVar) :
    env.withoutConstructors.expand level store type = env.expand level store type := by
  rw [expand, expand]
  simp only [expandWithin_withoutConstructors]
  rfl

end Environment

namespace Declarations

variable {declarations : Declarations} {source store : Store} {type : Ty MetaVar}

/-- With aliases that were declared in one run, on any store whose links lead nowhere back, a known type in
which aliases have the right numbers of arguments, also behind links, is expanded after finitely many
rounds.  What is found is at its root no linked variable, no synonym and no alias. -/
theorem expand_of_registers (registers : declarations.Registers source) (acyclic : store.Acyclic)
    (level : Level) (owned : store.Owns type.leaves)
    (fits : ∀ application ∈ type.applications, declarations.toEnvironment.Fits application)
    (targetsFit : ∀ v target, store.cells.get? v = some (.linked target) →
      ∀ application ∈ target.applications, declarations.toEnvironment.Fits application) :
    ∃ root grown, declarations.toEnvironment.expand level store type = .ok (root, grown) ∧
      (∃ rounds, ∀ fuel, rounds ≤ fuel →
        declarations.toEnvironment.expandWithin level fuel store type = .ok (root, grown)) ∧
      grown.Settled root ∧ declarations.toEnvironment.aliasAt? root = none := by
  have stratified := registers.stratified
  let env := declarations.toEnvironment.withoutConstructors
  have envOwned : env.OwnedBy store := by
    refine ⟨?_, nofun⟩
    intro con template isBody
    apply Store.owns_of_forall
    intro v occurs
    exact absurd (SchemeVar.mem_filterMap_free?.mp occurs) (stratified.closed isBody v)
  have outlinedFits : ∀ application ∈ (store.outline type).applications,
      (declarations.toEnvironment.outline store).Fits application := by
    intro application among template isBody
    obtain ⟨original, isOriginal, rfl⟩ := Option.map_eq_some_iff.mp isBody
    rcases Store.applied_of_outline among with inType | ⟨v, target, stored, inTarget⟩
    · exact fits application inType original isOriginal
    · exact targetsFit v target stored application inTarget original isOriginal
  have layered : (env.outline store).Layered :=
    have outlined := stratified.layered_outline store
    ⟨outlined.defined, outlined.lower, outlined.fits⟩
  obtain ⟨outlinedRoot, stands⟩ := layered.ends outlinedFits
  obtain ⟨root, grown, expands, _, _, _, settled⟩ :=
    Environment.expand_of_root acyclic envOwned level (.refl store) owned stands
  rw [Environment.expand_withoutConstructors] at expands
  obtain ⟨rounds, ends⟩ := Environment.exists_rounds_of_expand acyclic owned expands
  exact ⟨root, grown, expands, ⟨rounds, ends⟩, settled,
    Environment.aliasAt?_of_expandWithin (ends rounds (Nat.le_refl _))⟩

/-! ### Aliases in the arguments of aliases -/

def same : TyCon := ⟨0, "same"⟩

def twice : TyCon := ⟨1, "twice"⟩

def nestedAliases : Declarations :=
  (empty.set same (.aliasOf ⟨[⟨0⟩], .var (.bound ⟨0⟩)⟩)).set twice
    (.aliasOf ⟨[⟨1⟩], .data same [.data same [.var (.bound ⟨1⟩)]]⟩)

def nestedStore : Store :=
  { Store.empty with
    nextCon := 2, nextVar := 1, nextBound := 2
    cells := Table.empty.set ⟨0⟩ (.linked (.data twice [.base .int])) }

theorem registers_nestedAliases :
    nestedAliases.Registers { Store.empty with nextCon := 2, nextBound := 2 } := by
  let firstStore : Store := { Store.empty with nextCon := 1, nextBound := 1 }
  have addsSame : empty.addAlias .empty "same" 1 (fun declared => declared.paramAt 0)
      = .ok (⟨same, [⟨0⟩]⟩, empty.set same (.aliasOf ⟨[⟨0⟩], .var (.bound ⟨0⟩)⟩), firstStore) := rfl
  have first : Registers (empty.set same (.aliasOf ⟨[⟨0⟩], .var (.bound ⟨0⟩)⟩)) firstStore := by
    refine .addAlias (.start .empty) ?_ addsSame
    intro type isBody
    cases isBody
    exact ⟨by simp [Ty.leaves], by decide, by decide⟩
  have addsTwice : (empty.set same (.aliasOf ⟨[⟨0⟩], .var (.bound ⟨0⟩)⟩)).addAlias firstStore "twice" 1
      (fun declared => return .data same [.data same [← declared.paramAt 0]])
      = .ok (⟨twice, [⟨1⟩]⟩, nestedAliases, { Store.empty with nextCon := 2, nextBound := 2 }) := rfl
  refine .addAlias first ?_ addsTwice
  intro type isBody
  cases isBody
  exact ⟨by simp [Ty.leaves, Ty.leavesList], by decide, by decide⟩

/-- The argument of an alias for its parameter is a variable that has been found to be another alias, declared
later, which repeats the first one. -/
theorem nestedAliases_expanded :
    ∃ root grown,
      nestedAliases.toEnvironment.expand .bottom nestedStore (.data same [.var ⟨0⟩])
        = .ok (root, grown) ∧
      (∃ rounds, ∀ fuel, rounds ≤ fuel →
        nestedAliases.toEnvironment.expandWithin .bottom fuel nestedStore
          (.data same [.var ⟨0⟩]) = .ok (root, grown)) ∧
      grown.Settled root ∧ nestedAliases.toEnvironment.aliasAt? root = none ∧ root = .base .int := by
  have acyclic : nestedStore.Acyclic := Store.acyclic_of_entries (fun v => v.number) (by decide)
  have closed : nestedStore.Closed := by decide
  have owned : nestedStore.Owns (Ty.data same [.var ⟨0⟩]).leaves := closed.owns (by decide)
  have targetsFit : ∀ v target, nestedStore.cells.get? v = some (.linked target) →
      ∀ application ∈ target.applications, nestedAliases.toEnvironment.Fits application := by
    intro v target stored
    have listed := Store.mem_entries_of_get? stored
    cases List.mem_singleton.mp listed
    decide
  obtain ⟨root, grown, expands, ends, settled, notAlias⟩ :=
    expand_of_registers registers_nestedAliases acyclic .bottom owned (by decide) targetsFit
  have isInt : root = .base .int := by
    obtain ⟨rounds, ends⟩ := ends
    have four : nestedAliases.toEnvironment.expandWithin .bottom (rounds + 4) nestedStore
        (.data same [.var ⟨0⟩]) = .ok (.base .int, nestedStore) := by
      iterate 5 refine (Environment.expandWithin.eq_def ..).trans ?_
      rfl
    cases four.symm.trans (ends _ (Nat.le_add_right _ _))
    rfl
  exact ⟨root, grown, expands, ends, settled, notAlias, isInt⟩

end Declarations

end TypedMatch
