import TypedMatch.Coverage.Heads
import TypedMatch.Proofs.Coverage.Partition

/-!
# The heads that are listed

`Environment.Lists` says which list of heads a column is taken apart by, for a type of a given outline:
it is decided by what the type stands for.  There is at most one such list.  For a type that is declared,
and a column that fits it and asks for something, there is one, and it has the heads of the type, each of
them once.
-/

set_option autoImplicit false

namespace TypedMatch

/-! ## Heads over other variables -/

namespace Head

variable {Var NewVar : Type}

def retype (change : Ty Var → Ty NewVar) : Head Var → Head NewVar
  | unit => unit
  | bool value => bool value
  | int value => int value
  | str value => str value
  | intBesides listed => intBesides listed
  | strBesides listed => strBesides listed
  | nil => nil
  | cons element => cons (change element)
  | tuple components => tuple (components.map change)
  | constant name => constant name
  | applied name payload => applied name (change payload)

def ofConstructor (name : String) (payload : Ty Var) : Head Var :=
  match payload with
  | .base .unit => .constant name
  | _ => .applied name payload

variable {change : Ty Var → Ty NewVar} {head : Head Var}

theorem arity_retype : (head.retype change).arity = head.arity := by
  cases head with
  | tuple components => exact List.length_map change
  | _ => rfl

theorem demands_retype (shape : Shape) : (head.retype change).demands shape = head.demands shape := by
  cases shape with
  | wildcard => rw [demands, demands, arity_retype]
  | tuple shapes =>
      cases head with
      | tuple components => simp only [retype, demands, List.length_map]
      | _ => rfl
  | _ => cases head <;> rfl

theorem opens_retype {value : Value} {parts : List Value} :
    (head.retype change).Opens value parts ↔ head.Opens value parts := by
  constructor
  · intro opens
    cases head with
    | tuple components =>
        cases opens with
        | tuple sameLength => exact .tuple (sameLength.trans (List.length_map change))
    | intBesides listed =>
        cases opens with
        | intBesides unlisted => exact .intBesides unlisted
    | strBesides listed =>
        cases opens with
        | strBesides unlisted => exact .strBesides unlisted
    | _ =>
        cases opens
        constructor
  · intro opens
    cases opens with
    | tuple sameLength => exact .tuple (sameLength.trans (List.length_map change).symm)
    | intBesides unlisted => exact .intBesides unlisted
    | strBesides unlisted => exact .strBesides unlisted
    | _ => constructor

theorem rebuild_retype (witnesses : List Witness) :
    (head.retype change).rebuild witnesses = head.rebuild witnesses := by
  cases head with
  | cons element =>
      match witnesses with
      | [] | [_] | [_, _] | _ :: _ :: _ :: _ => rfl
  | applied name payload =>
      match witnesses with
      | [] | [_] | _ :: _ :: _ => rfl
  | _ => rfl

theorem ofConstructor_unit (name : String) : ofConstructor name (.unit : Ty Var) = .constant name :=
  rfl

theorem ofConstructor_of_ne_unit (name : String) {payload : Ty Var} (notUnit : payload ≠ .unit) :
    ofConstructor name payload = .applied name payload := by
  unfold ofConstructor
  split
  · exact absurd rfl notUnit
  · rfl

theorem name_eq_of_ofConstructor_eq {name other : String} {payload carried : Ty Var}
    (same : ofConstructor name payload = ofConstructor other carried) : name = other := by
  unfold ofConstructor at same
  split at same <;> split at same <;> cases same
  · rfl
  · rfl

end Head

variable {env : Environment} {type root : Ty Unit} {column : List Shape} {head : Head Unit}

/-! ## The heads of a root -/

def Head.Suits : Head Unit → Ty Unit → Prop
  | .unit, root => root = .base .unit
  | .bool _, root => root = .base .bool
  | .int _, root | .intBesides _, root => root = .base .int
  | .str _, root | .strBesides _, root => root = .base .string
  | .nil, root => ∃ element, root = .list element
  | .cons element, root => root = .list element
  | .tuple components, root => root = .product components
  | .constant _, root | .applied _ _, root => ∃ con args, root = .data con args

theorem Environment.HeadOf.suits (headOf : env.HeadOf column type head)
    (stands : env.Root type root) : head.Suits root := by
  cases headOf with
  | unit isRoot | bool isRoot | cons isRoot | tuple isRoot => exact stands.unique isRoot
  | int isRoot _ | str isRoot _ | intBesides isRoot | strBesides isRoot =>
      exact stands.unique isRoot
  | nil isRoot => exact ⟨_, stands.unique isRoot⟩
  | constant offered | applied offered _ =>
      obtain ⟨con, args, _, _, isRoot, _⟩ := offered
      exact ⟨con, args, stands.unique isRoot⟩

namespace Environment

theorem enumerates_of_suits {heads : List (Head Unit)} (stands : env.Root type root)
    (each : ∀ head ∈ heads, env.HeadOf column type head)
    (all : ∀ head, env.HeadOf column type head → head.Suits root → head ∈ heads)
    (distinct : heads.Nodup) : env.Enumerates column type heads where
  mem_iff := fun head => ⟨each head, fun headOf => all head headOf (headOf.suits stands)⟩
  distinct := distinct

theorem enumerates_unit (stands : env.Root type (.base .unit)) :
    env.Enumerates column type [.unit] := by
  refine enumerates_of_suits stands (List.forall_mem_singleton.mpr (.unit stands)) ?_
    (List.nodup_singleton _)
  intro head _ suits
  cases head <;> simp_all [Head.Suits]

theorem enumerates_bool (stands : env.Root type (.base .bool)) :
    env.Enumerates column type [.bool true, .bool false] := by
  refine enumerates_of_suits stands
    (List.forall_mem_cons.mpr ⟨.bool stands, List.forall_mem_singleton.mpr (.bool stands)⟩) ?_ (by simp)
  intro head _ suits
  cases head <;> simp_all [Head.Suits]

theorem enumerates_literals {Literal : Type} {listed : List Literal} {one : Literal → Head Unit}
    {others : Head Unit} (stands : env.Root type root) (injective : Function.Injective one)
    (apart : ∀ literal, one literal ≠ others) (distinct : listed.Nodup)
    (each : ∀ literal ∈ listed, env.HeadOf column type (one literal))
    (rest : env.HeadOf column type others)
    (all : ∀ head, env.HeadOf column type head → head.Suits root →
      (∃ literal ∈ listed, one literal = head) ∨ head = others) :
    env.Enumerates column type (listed.map one ++ [others]) := by
  refine enumerates_of_suits stands ?_ ?_ ?_
  · exact List.forall_mem_append.mpr ⟨List.forall_mem_map.mpr each, List.forall_mem_singleton.mpr rest⟩
  · intro head headOf suits
    rw [List.mem_append, List.mem_map, List.mem_singleton]
    exact all head headOf suits
  · refine List.nodup_append.mpr ⟨distinct.map injective, List.nodup_singleton _, ?_⟩
    simpa using fun literal _ => apart literal

theorem enumerates_int (stands : env.Root type (.base .int)) :
    env.Enumerates column type ((listedInts column).map .int ++ [.intBesides (listedInts column)]) := by
  refine enumerates_literals stands (fun _ _ => Head.int.inj) (by simp) (nodup_eraseDups _)
    (fun _ listed => .int stands listed) (.intBesides stands) ?_
  intro head headOf suits
  cases headOf <;> simp_all [Head.Suits]

theorem enumerates_str (stands : env.Root type (.base .string)) :
    env.Enumerates column type ((listedStrs column).map .str ++ [.strBesides (listedStrs column)]) := by
  refine enumerates_literals stands (fun _ _ => Head.str.inj) (by simp) (nodup_eraseDups _)
    (fun _ listed => .str stands listed) (.strBesides stands) ?_
  intro head headOf suits
  cases headOf <;> simp_all [Head.Suits]

theorem enumerates_list {element : Ty Unit} (stands : env.Root type (.list element)) :
    env.Enumerates column type [.cons element, .nil] := by
  refine enumerates_of_suits stands
    (List.forall_mem_cons.mpr ⟨.cons stands, List.forall_mem_singleton.mpr (.nil stands)⟩) ?_ (by simp)
  intro head _ suits
  cases head <;> simp_all [Head.Suits]

theorem enumerates_product {components : List (Ty Unit)}
    (stands : env.Root type (.product components)) :
    env.Enumerates column type [.tuple components] := by
  refine enumerates_of_suits stands (List.forall_mem_singleton.mpr (.tuple stands)) ?_
    (List.nodup_singleton _)
  intro head _ suits
  cases head <;> simp_all [Head.Suits]

theorem enumerates_data {con : TyCon} {args : List (Ty Unit)} {constructors : List Constructor}
    (stands : env.Root type (.data con args)) (declared : env.constructors? con = some constructors)
    (distinct : (constructors.map Constructor.name).Nodup) :
    env.Enumerates column type (constructors.map fun constructor =>
      .ofConstructor constructor.name (constructor.payload.fill args)) where
  mem_iff := by
    intro head
    rw [List.mem_map]
    constructor
    · rintro ⟨constructor, among, rfl⟩
      have offered : env.Offers type constructor.name (constructor.payload.fill args) :=
        ⟨con, args, constructors, constructor, stands, declared, among, rfl, rfl⟩
      by_cases isUnit : constructor.payload.fill args = .unit
      · rw [isUnit] at offered ⊢
        exact .constant offered
      · rw [Head.ofConstructor_of_ne_unit _ isUnit]
        exact .applied offered isUnit
    · intro headOf
      have suits := headOf.suits stands
      cases headOf with
      | constant offered =>
          obtain ⟨_, _, _, constructor, isData, listed, among, rfl, isUnit⟩ := offered
          cases stands.unique isData
          cases declared.symm.trans listed
          exact ⟨constructor, among, by rw [isUnit, Head.ofConstructor_unit]⟩
      | applied offered notUnit =>
          obtain ⟨_, _, _, constructor, isData, listed, among, rfl, rfl⟩ := offered
          cases stands.unique isData
          cases declared.symm.trans listed
          exact ⟨constructor, among, Head.ofConstructor_of_ne_unit _ notUnit⟩
      | _ => simp [Head.Suits] at suits
  distinct := by
    refine List.pairwise_map.mpr ((List.pairwise_map.mp distinct).imp ?_)
    intro constructor other different same
    exact different (Head.name_eq_of_ofConstructor_eq same)

theorem strangeLength?_eq_none {components : List (Ty Unit)}
    (stands : env.Root type (.product components))
    (columnFits : ∀ shape ∈ column, shape.Fits env type) :
    strangeLength? components.length column = none := by
  refine List.find?_eq_none.mpr ?_
  intro length found
  obtain ⟨shape, among, isTuple⟩ := List.mem_filterMap.mp found
  cases shape with
  | tuple shapes =>
      obtain ⟨_, isProduct, shapesFit⟩ := columnFits _ among
      cases stands.unique isProduct
      cases isTuple
      simp [shapesFit.length_eq]
  | _ => cases isTuple

theorem strangeCtor?_eq_none {con : TyCon} {args : List (Ty Unit)} {constructors : List Constructor}
    (stands : env.Root type (.data con args)) (declared : env.constructors? con = some constructors)
    (columnFits : ∀ shape ∈ column, shape.Fits env type) :
    strangeCtor? constructors column = none := by
  refine List.find?_eq_none.mpr ?_
  intro name found
  obtain ⟨shape, among, isCtor⟩ := List.mem_filterMap.mp found
  cases shape with
  | ctor tag inner =>
      obtain ⟨_, ⟨_, _, _, constructor, isData, listed, isListed, rfl, _⟩, _⟩ := columnFits _ among
      cases stands.unique isData
      cases declared.symm.trans listed
      cases isCtor
      have known := List.mem_map_of_mem (f := Constructor.name) isListed
      simpa using known
  | _ => cases isCtor

end Environment

/-! ## Lists of heads -/

/-- The heads of a type that stands for the given root, or nothing if the column cannot be taken apart
at such a type. -/
def Environment.headsAt? (env : Environment) (column : List Shape) :
    Ty Unit → Option (List (Head Unit))
  | .base .unit => some [.unit]
  | .base .bool => some [.bool true, .bool false]
  | .base .int => some ((listedInts column).map .int ++ [.intBesides (listedInts column)])
  | .base .string => some ((listedStrs column).map .str ++ [.strBesides (listedStrs column)])
  | .list element => some [.cons element, .nil]
  | .product components =>
      if strangeLength? components.length column = none then some [.tuple components] else none
  | .data con args =>
      match env.constructors? con with
      | none => none
      | some constructors =>
          if strangeCtor? constructors column = none ∧
              ∀ constructor ∈ constructors, constructor.payload.params.length = args.length then
            some (constructors.map fun constructor =>
              .ofConstructor constructor.name (constructor.payload.fill args))
          else none
  | _ => none

def Environment.Lists (env : Environment) (column : List Shape) (type : Ty Unit)
    (heads : List (Head Unit)) : Prop :=
  ∃ root, env.Root type root ∧ env.headsAt? column root = some heads

namespace Environment

variable {heads : List (Head Unit)}

theorem Lists.unique {others : List (Head Unit)} (lists : env.Lists column type heads)
    (otherwise : env.Lists column type others) : heads = others := by
  obtain ⟨root, stands, listed⟩ := lists
  obtain ⟨other, otherStands, otherListed⟩ := otherwise
  rw [stands.unique otherStands] at listed
  exact Option.some.inj (listed.symm.trans otherListed)

theorem not_lists_of_root (stands : env.Root type root) (unlisted : env.headsAt? column root = none)
    (heads : List (Head Unit)) : ¬ env.Lists column type heads := by
  rintro ⟨other, otherStands, listed⟩
  rw [← stands.unique otherStands, unlisted] at listed
  cases listed

/-- A type that is declared, and a column that fits it and asks for something, have a list of heads,
which are the heads of the type. -/
theorem exists_lists (rooted : env.RootDeclared type) (columnFits : ∀ shape ∈ column, shape.Fits env type)
    (asks : ∃ shape ∈ column, shape.isBlank = false) :
    ∃ heads, env.Lists column type heads ∧ env.Enumerates column type heads := by
  obtain ⟨root, stands, declares⟩ := rooted
  obtain ⟨shape, among, shapeAsks⟩ := asks
  have notSealed := (columnFits shape among).not_isSealed shapeAsks stands
  cases root with
  | base kind =>
      cases kind with
      | unit => exact ⟨_, ⟨_, stands, rfl⟩, enumerates_unit stands⟩
      | bool => exact ⟨_, ⟨_, stands, rfl⟩, enumerates_bool stands⟩
      | int => exact ⟨_, ⟨_, stands, rfl⟩, enumerates_int stands⟩
      | string => exact ⟨_, ⟨_, stands, rfl⟩, enumerates_str stands⟩
      | _ => exact absurd trivial notSealed
  | list element => exact ⟨_, ⟨_, stands, rfl⟩, enumerates_list stands⟩
  | product components =>
      refine ⟨_, ⟨_, stands, ?_⟩, enumerates_product stands⟩
      rw [headsAt?, if_pos (strangeLength?_eq_none stands columnFits)]
  | data con args =>
      obtain ⟨constructors, declared, distinct, fits⟩ := declares con args rfl
      refine ⟨_, ⟨_, stands, ?_⟩, enumerates_data stands declared distinct⟩
      rw [headsAt?, declared]
      exact if_pos ⟨strangeCtor?_eq_none stands declared columnFits, fits⟩
  | _ => exact absurd trivial notSealed

end Environment

end TypedMatch
