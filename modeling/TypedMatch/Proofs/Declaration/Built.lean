import TypedMatch.Declaration.Basic
import TypedMatch.Proofs.Environment.Expand
import TypedMatch.Proofs.Store.Closed

/-!
# What declarations guarantee

Declarations are built up from none by declaring variants and aliases and by giving variants more
constructors.  A constructor of a name that its variant already has is turned down, so the constructors of
a variant always have distinct names.  Whatever else a check asks of declared types is up to their use:
that applications have the right number of arguments, and that aliases lead somewhere.
-/

set_option autoImplicit false

namespace TypedMatch

namespace Declarations

inductive Built : Declarations → Prop where
  | empty : Built .empty
  | addVariant {declarations : Declarations} (store : Store) (name : String) (arity : Nat) :
      Built declarations → Built (declarations.addVariant store name arity).2.1
  | addAlias {Error : Type} {declarations made : Declarations} {store grown : Store} {name : String}
      {arity : Nat} {body : Declared → Except Error (Ty SchemeVar)} {declared : Declared} :
      Built declarations →
      declarations.addAlias store name arity body = .ok (declared, made, grown) → Built made
  | extend {declarations made : Declarations} {con : TyCon} {name : String} {payload : Ty SchemeVar} :
      Built declarations → declarations.extend con name payload = .ok made → Built made

def Distinct (declarations : Declarations) : Prop :=
  ∀ (con : TyCon) (params : List BoundVar) (constructors : List (String × Ty SchemeVar)),
    declarations.get? con = some (.variant params constructors) →
      (constructors.map Prod.fst).Nodup

variable {declarations made : Declarations} {con : TyCon} {name : String} {payload : Ty SchemeVar}

theorem get?_set (declarations : Declarations) (written con : TyCon) (declaration : Declaration) :
    (declarations.set written declaration).get? con
      = if con.number = written.number then some declaration else declarations.get? con :=
  Table.get?_set declarations.types written.number con.number declaration

theorem exists_of_extend (extended : declarations.extend con name payload = .ok made) :
    ∃ params constructors, declarations.get? con = some (.variant params constructors) ∧
      name ∉ constructors.map Prod.fst ∧
      (∀ other, made.get? other = if other.number = con.number
        then some (.variant params (constructors ++ [(name, payload)])) else declarations.get? other) ∧
      ∀ other, made.owner? other = if other = name then some con else declarations.owner? other := by
  rw [Declarations.extend] at extended
  split at extended
  · rename_i params constructors stored
    split at extended
    · cases extended
    · rename_i isNew
      cases extended
      exact ⟨params, constructors, stored, isNew, fun other => get?_set declarations con other _,
        fun other => Table.get?_set declarations.owners name other con⟩
  · cases extended
  · cases extended

theorem get?_congr {other : TyCon} (same : other.number = con.number) :
    declarations.get? other = declarations.get? con :=
  congrArg declarations.types.get? same

theorem Distinct.set (distinct : declarations.Distinct) (written : TyCon)
    {declaration : Declaration}
    (ownDistinct : ∀ params constructors, declaration = .variant params constructors →
      (constructors.map Prod.fst).Nodup) : (declarations.set written declaration).Distinct := by
  intro con params constructors stored
  rw [get?_set] at stored
  split at stored
  · exact ownDistinct params constructors (Option.some.inj stored)
  · exact distinct con params constructors stored

theorem Distinct.extend (distinct : declarations.Distinct)
    (extended : declarations.extend con name payload = .ok made) : made.Distinct := by
  obtain ⟨params, constructors, stored, isNew, get?_made, _⟩ := exists_of_extend extended
  intro other otherParams others found
  rw [get?_made] at found
  split at found
  · cases found
    rw [List.map_append]
    refine List.nodup_append.mpr ⟨distinct _ _ _ stored, List.pairwise_singleton _ _, ?_⟩
    intro given among last isLast same
    rw [same, List.mem_singleton.mp isLast] at among
    exact isNew among
  · exact distinct other otherParams others found

theorem Built.distinct (built : declarations.Built) : declarations.Distinct := by
  induction built with
  | empty =>
      intro con params constructors stored
      cases stored
  | addVariant store name arity _ inductionHypothesis =>
      apply inductionHypothesis.set
      rintro _ _ ⟨⟩
      exact List.nodup_nil
  | @addAlias Error declarations made store grown name arity body declared _ added
      inductionHypothesis =>
      obtain ⟨type, _, finished⟩ := ok_of_bind added
      cases finished
      apply inductionHypothesis.set
      intro params constructors isVariant
      cases isVariant
  | extend _ extended inductionHypothesis => exact inductionHypothesis.extend extended

theorem Built.nodup_names (built : declarations.Built) {constructors : List Constructor}
    (listed : declarations.toEnvironment.constructors? con = some constructors) :
    (constructors.map Constructor.name).Nodup := by
  change declarations.constructors? con = some constructors at listed
  rw [Declarations.constructors?] at listed
  split at listed
  · rename_i params entries stored
    cases listed
    rw [List.map_map]
    exact built.distinct _ _ _ stored
  · cases listed

end Declarations

namespace Environment

/-- Whether a root is that of a variant that is declared and applied to as many arguments as each
payload has parameters.  Any other root is in any case. -/
def Defines (env : Environment) (root : Ty Unit) : Prop :=
  ∀ con args, root = .data con args →
    ∃ constructors, env.constructors? con = some constructors ∧
      ∀ constructor ∈ constructors, constructor.payload.params.length = args.length

/-- Whether every type that is reached stands for something, and for a declared variant if for a
variant. -/
def Defined (env : Environment) (type : Ty Unit) : Prop :=
  ∀ found, env.Reaches type found → ∃ root, env.Root found root ∧ env.Defines root

def partsAt (env : Environment) : Ty Unit → List (Ty Unit)
  | .list element => [element]
  | .product components => components
  | .data con args =>
      ((env.constructors? con).getD []).map fun constructor => constructor.payload.fill args
  | _ => []

variable {env : Environment} {type : Ty Unit} {types : List (Ty Unit)}

/-- A list of types is all that is reached from one of them if it has the roots of its types and what
is seen one step behind these. -/
theorem mem_of_reaches (closed : ∀ other ∈ types, ∃ root ∈ types, env.Root other root ∧
      ∀ part ∈ env.partsAt root, part ∈ types) (among : type ∈ types) {found : Ty Unit}
    (reaches : env.Reaches type found) : found ∈ types := by
  have parts : ∀ other ∈ types, ∀ root, env.Root other root →
      root ∈ types ∧ ∀ part ∈ env.partsAt root, part ∈ types := by
    intro other inTypes root stands
    obtain ⟨_, rootAmong, otherStands, partsAmong⟩ := closed other inTypes
    rw [stands.unique otherStands]
    exact ⟨rootAmong, partsAmong⟩
  induction reaches with
  | self => exact among
  | root _ stands inductionHypothesis => exact (parts _ inductionHypothesis _ stands).1
  | element _ stands inductionHypothesis =>
      exact (parts _ inductionHypothesis _ stands).2 _ (List.mem_singleton.mpr rfl)
  | component _ stands isComponent inductionHypothesis =>
      exact (parts _ inductionHypothesis _ stands).2 _ isComponent
  | payload _ offered inductionHypothesis =>
      obtain ⟨con, args, constructors, constructor, stands, listed, isListed, _, rfl⟩ := offered
      apply (parts _ inductionHypothesis _ stands).2
      rw [partsAt, listed]
      exact List.mem_map_of_mem isListed

theorem defined_of_closed (closed : ∀ other ∈ types, ∃ root ∈ types, env.Root other root ∧
      ∀ part ∈ env.partsAt root, part ∈ types) (defines : ∀ other ∈ types, env.Defines other)
    (among : type ∈ types) : env.Defined type := by
  intro found reaches
  obtain ⟨root, rootAmong, stands, _⟩ := closed found (mem_of_reaches closed among reaches)
  exact ⟨root, stands, defines root rootAmong⟩

end Environment

theorem Declarations.Built.sound_of_defined {declarations : Declarations}
    (built : declarations.Built) {store : Store} {type : Ty Unit}
    (defined : (declarations.toEnvironment.outline store).Defined type) :
    (declarations.toEnvironment.outline store).Sound type := by
  intro found reaches
  obtain ⟨root, stands, defines⟩ := defined found reaches
  refine ⟨root, stands, ?_⟩
  intro con args isData
  obtain ⟨constructors, listed, fits⟩ := defines con args isData
  refine ⟨constructors, listed, ?_, fits⟩
  obtain ⟨originals, declared, rfl⟩ := Option.map_eq_some_iff.mp listed
  rw [List.map_map]
  exact built.nodup_names declared

/-! ## Variables of declarations -/

def Declaration.vars : Declaration → List MetaVar
  | variant _ constructors =>
      constructors.flatMap fun entry => entry.2.leaves.filterMap SchemeVar.free?
  | aliasOf template => template.vars

namespace Declarations

def Mentions (declarations : Declarations) (v : MetaVar) : Prop :=
  ∃ con declaration, declarations.get? con = some declaration ∧ v ∈ declaration.vars

variable {declarations : Declarations}

theorem body?_mentions {con : TyCon} {template : Template} {v : MetaVar}
    (isBody : declarations.body? con = some template) (occurs : v ∈ template.vars) :
    declarations.Mentions v := by
  obtain ⟨declaration, stored, isTemplate⟩ := Option.bind_eq_some_iff.mp isBody
  cases declaration with
  | variant _ _ => cases isTemplate
  | aliasOf body =>
      cases isTemplate
      exact ⟨con, _, stored, occurs⟩

theorem constructors?_mentions {con : TyCon} {constructors : List Constructor} {v : MetaVar}
    (listed : declarations.constructors? con = some constructors)
    (occurs : ∃ constructor ∈ constructors, v ∈ constructor.payload.vars) :
    declarations.Mentions v := by
  rw [constructors?] at listed
  split at listed
  · rename_i params entries stored
    cases listed
    obtain ⟨constructor, among, inPayload⟩ := occurs
    obtain ⟨entry, inEntries, rfl⟩ := List.mem_map.mp among
    exact ⟨con, _, stored, List.mem_flatMap.mpr ⟨entry, inEntries, inPayload⟩⟩
  · cases listed

theorem ownedBy_of_closed {store : Store} (closed : store.Closed)
    (each : ∀ entry ∈ declarations.types.entries, ∀ var ∈ entry.2.vars, store.Has var) :
    declarations.toEnvironment.OwnedBy store := by
  have has : ∀ v, declarations.Mentions v → store.Has v := by
    rintro v ⟨con, declaration, stored, occurs⟩
    obtain ⟨before, after, split, _⟩ := List.lookup_eq_some_iff.mp stored
    refine each (con.number, declaration) ?_ v occurs
    rw [split]
    exact List.mem_append_right _ (.head _)
  exact
    { bodies := fun isBody => closed.owns fun v occurs => has v (body?_mentions isBody occurs)
      payloads := fun listed constructor among => closed.owns fun v occurs =>
        has v (constructors?_mentions listed ⟨constructor, among, occurs⟩) }

end Declarations

end TypedMatch
