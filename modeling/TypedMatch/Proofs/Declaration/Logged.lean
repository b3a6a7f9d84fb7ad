import TypedMatch.Proofs.Declaration.Built

/-!
# Declared types and the log of them

Declared types are what has been entered one after the other: variants, aliases, and constructors for variants.
All that they answer can be told from the log of these entries, whatever the order in which several variants got
their constructors, and whatever was turned down in between.
-/

set_option autoImplicit false

namespace TypedMatch

inductive Registration where
  | variant (declared : Declared)
  | aliasOf (declared : Declared) (body : Ty SchemeVar)
  | constructor (con : TyCon) (name : String) (payload : Ty SchemeVar)

namespace Registration

def declares? : Registration → Option (TyCon × Declaration)
  | variant declared => some (declared.con, .variant declared.params [])
  | aliasOf declared body => some (declared.con, .aliasOf ⟨declared.params, body⟩)
  | constructor _ _ _ => none

def gives? (number : Nat) : Registration → Option (String × Ty SchemeVar)
  | constructor con name payload => if con.number = number then some (name, payload) else none
  | _ => none

def taker? (name : String) : Registration → Option TyCon
  | constructor con given _ => if given = name then some con else none
  | _ => none

def declared (log : List Registration) : List (TyCon × Declaration) := log.filterMap declares?

def given (log : List Registration) (number : Nat) : List (String × Ty SchemeVar) :=
  log.filterMap (gives? number)

def takers (log : List Registration) (name : String) : List TyCon := log.filterMap (taker? name)

def aliases (log : List Registration) : List TyCon :=
  ((declared log).filter fun entry => entry.2.body?.isSome).map Prod.fst

def variants (log : List Registration) : List TyCon :=
  ((declared log).filter fun entry => entry.2.body?.isNone).map Prod.fst

theorem mem_given {log : List Registration} {number : Nat} {name : String} {payload : Ty SchemeVar} :
    (name, payload) ∈ given log number ↔ ∃ con, constructor con name payload ∈ log ∧ con.number = number := by
  rw [given, List.mem_filterMap]
  constructor
  · rintro ⟨registration, inLog, gives⟩
    cases registration with
    | variant declared => cases gives
    | aliasOf declared body => cases gives
    | constructor con other otherPayload =>
        rw [gives?] at gives
        split at gives
        · rename_i same
          cases gives
          exact ⟨con, inLog, same⟩
        · cases gives
  · rintro ⟨con, inLog, same⟩
    exact ⟨_, inLog, if_pos same⟩

theorem mem_takers {log : List Registration} {name : String} {con : TyCon} :
    con ∈ takers log name ↔ ∃ payload, constructor con name payload ∈ log := by
  rw [takers, List.mem_filterMap]
  constructor
  · rintro ⟨registration, inLog, takes⟩
    cases registration with
    | variant declared => cases takes
    | aliasOf declared body => cases takes
    | constructor other given payload =>
        rw [taker?] at takes
        split at takes
        · rename_i same
          cases takes
          rw [← same]
          exact ⟨payload, inLog⟩
        · cases takes
  · rintro ⟨payload, inLog⟩
    exact ⟨_, inLog, if_pos rfl⟩

variable (log : List Registration)

/-! ## One more entry in the log -/

section Declaring

variable {registration : Registration} {entry : TyCon × Declaration}
  (declares : registration.declares? = some entry)

include declares

theorem declared_declare : declared (log ++ [registration]) = declared log ++ [entry] := by
  rw [declared, List.filterMap_append, List.filterMap_cons, declares]
  rfl

theorem given_declare (number : Nat) : given (log ++ [registration]) number = given log number := by
  have givesNothing : registration.gives? number = none := by
    cases registration with
    | variant declared => rfl
    | aliasOf declared body => rfl
    | constructor con name payload => cases declares
  rw [given, List.filterMap_append, List.filterMap_cons, givesNothing, List.filterMap_nil, List.append_nil,
    given]

theorem takers_declare (name : String) : takers (log ++ [registration]) name = takers log name := by
  have noTaker : registration.taker? name = none := by
    cases registration with
    | variant declared => rfl
    | aliasOf declared body => rfl
    | constructor con name payload => cases declares
  rw [takers, List.filterMap_append, List.filterMap_cons, noTaker, List.filterMap_nil, List.append_nil, takers]

end Declaring

section Giving

variable (con : TyCon) (name : String) (payload : Ty SchemeVar)

theorem declared_give : declared (log ++ [constructor con name payload]) = declared log := by
  rw [declared, List.filterMap_append]
  exact List.append_nil _

theorem given_give (number : Nat) : given (log ++ [constructor con name payload]) number =
    given log number ++ if con.number = number then [(name, payload)] else [] := by
  rw [given, List.filterMap_append, List.filterMap_cons, gives?]
  by_cases same : con.number = number
  · rw [if_pos same, if_pos same]
    rfl
  · rw [if_neg same, if_neg same]
    rfl

theorem takers_give (other : String) : takers (log ++ [constructor con name payload]) other =
    takers log other ++ if name = other then [con] else [] := by
  rw [takers, List.filterMap_append, List.filterMap_cons, taker?]
  by_cases same : name = other
  · rw [if_pos same, if_pos same]
    rfl
  · rw [if_neg same, if_neg same]
    rfl

end Giving

end Registration

def Declaration.widen (more : List (String × Ty SchemeVar)) : Declaration → Declaration
  | variant params constructors => variant params (constructors ++ more)
  | aliasOf template => aliasOf template

namespace Declaration

theorem widen_nil (declaration : Declaration) : declaration.widen [] = declaration := by
  cases declaration with
  | variant params constructors => rw [widen, List.append_nil]
  | aliasOf template => rfl

theorem widen_append (declaration : Declaration) (first second : List (String × Ty SchemeVar)) :
    declaration.widen (first ++ second) = (declaration.widen first).widen second := by
  cases declaration with
  | variant params constructors => rw [widen, widen, widen, List.append_assoc]
  | aliasOf template => rfl

theorem body?_widen (declaration : Declaration) (more : List (String × Ty SchemeVar)) :
    (declaration.widen more).body? = declaration.body? := by
  cases declaration with
  | variant params constructors => rfl
  | aliasOf template => rfl

end Declaration

namespace Declarations

open Registration

/-- Whether the declared types are those of a log, all of them under numbers below the next one.  In the log
types are declared in the order of their numbers, and only variants are given constructors, of a name once. -/
structure Records (declarations : Declarations) (log : List Registration) (next : Nat) : Prop where
  get?_iff : ∀ {con : TyCon} {declaration : Declaration}, declarations.get? con = some declaration ↔
    ∃ entry ∈ declared log, entry.1.number = con.number ∧ declaration = entry.2.widen (given log con.number)
  owner?_eq : ∀ name, declarations.owner? name = (takers log name).getLast?
  minted : ∀ {con : TyCon} {declaration : Declaration}, declarations.get? con = some declaration →
    con.number < next
  isVariant : ∀ {con : TyCon} {name : String} {payload : Ty SchemeVar}, .constructor con name payload ∈ log →
    ∃ params constructors, declarations.get? con = some (.variant params constructors)
  ascending : (declared log).Pairwise fun entry later => entry.1.number < later.1.number
  distinct : ∀ number, ((given log number).map Prod.fst).Nodup

variable {declarations made : Declarations} {log : List Registration} {next later : Nat} {con : TyCon}
  {name : String} {payload : Ty SchemeVar}

theorem records_empty (next : Nat) : Declarations.empty.Records [] next where
  get?_iff := by
    intro con declaration
    refine iff_of_false (fun stored => nomatch stored) ?_
    rintro ⟨entry, among, _⟩
    cases among
  owner?_eq _ := rfl
  minted stored := nomatch stored
  isVariant among := nomatch among
  ascending := .nil
  distinct _ := .nil

theorem Records.mono (records : declarations.Records log next) (grows : next ≤ later) :
    declarations.Records log later :=
  { records with minted := fun stored => Nat.lt_of_lt_of_le (records.minted stored) grows }

/-! ## One more entry -/

theorem Records.given_eq_nil (records : declarations.Records log next) (unknown : declarations.get? con = none) :
    given log con.number = [] := by
  apply List.eq_nil_iff_forall_not_mem.mpr
  rintro ⟨name, payload⟩ among
  obtain ⟨other, inLog, same⟩ := mem_given.mp among
  obtain ⟨params, constructors, stored⟩ := records.isVariant inLog
  rw [get?_congr same, unknown] at stored
  cases stored

theorem Records.unknown (records : declarations.Records log next) (isNext : next ≤ con.number) :
    declarations.get? con = none := by
  cases stored : declarations.get? con with
  | none => rfl
  | some declaration =>
      have low := records.minted stored
      omega

theorem Records.declare (records : declarations.Records log next) {registration : Registration}
    {declaration : Declaration} (declares : registration.declares? = some (con, declaration))
    (isNext : next ≤ con.number) (below : con.number < later) :
    (declarations.set con declaration).Records (log ++ [registration]) later := by
  -- Under a new number nothing is stored, so nothing has been given to it either.
  have unknown : declarations.get? con = none := records.unknown isNext
  have old {other : TyCon} {found : Declaration} (stored : declarations.get? other = some found) :
      (declarations.set con declaration).get? other = some found := by
    have low := records.minted stored
    rw [get?_set, if_neg (by omega), stored]
  refine ⟨?_, ?_, ?_, ?_, ?_, ?_⟩
  · intro other found
    rw [declared_declare log declares, given_declare log declares]
    constructor
    · intro stored
      rw [get?_set] at stored
      split at stored
      · rename_i same
        refine ⟨(con, declaration), List.mem_append_right _ (.head _), same.symm, ?_⟩
        rw [same, records.given_eq_nil unknown, Declaration.widen_nil]
        exact (Option.some.inj stored).symm
      · obtain ⟨entry, among, isEntry⟩ := records.get?_iff.mp stored
        exact ⟨entry, List.mem_append_left _ among, isEntry⟩
    · rintro ⟨entry, among, same, rfl⟩
      rcases List.mem_append.mp among with inLog | isNew
      · exact old (records.get?_iff.mpr ⟨entry, inLog, same, rfl⟩)
      · rw [List.mem_singleton.mp isNew] at same ⊢
        rw [get?_set, if_pos same.symm, ← same, records.given_eq_nil unknown, Declaration.widen_nil]
  · intro name
    rw [takers_declare log declares]
    exact records.owner?_eq name
  · intro other found stored
    rw [get?_set] at stored
    split at stored
    · omega
    · have low := records.minted stored
      omega
  · intro other name payload among
    rcases List.mem_append.mp among with inLog | isNew
    · obtain ⟨params, constructors, stored⟩ := records.isVariant inLog
      exact ⟨params, constructors, old stored⟩
    · rw [← List.mem_singleton.mp isNew] at declares
      cases declares
  · rw [declared_declare log declares]
    refine List.pairwise_append.mpr ⟨records.ascending, List.pairwise_singleton _ _, ?_⟩
    intro entry among newest isNewest
    rw [List.mem_singleton.mp isNewest]
    have low := records.minted (records.get?_iff.mpr ⟨entry, among, rfl, rfl⟩)
    exact Nat.lt_of_lt_of_le low isNext
  · intro number
    rw [given_declare log declares]
    exact records.distinct number

theorem Records.constructors_eq (records : declarations.Records log next) {params : List BoundVar}
    {constructors : List (String × Ty SchemeVar)}
    (stored : declarations.get? con = some (.variant params constructors)) :
    constructors = given log con.number := by
  obtain ⟨entry, among, _, isWidened⟩ := records.get?_iff.mp stored
  obtain ⟨registration, _, declares⟩ := List.mem_filterMap.mp among
  cases registration with
  | variant declared =>
      cases declares
      exact (Declaration.variant.inj isWidened).2
  | aliasOf declared body =>
      cases declares
      cases isWidened
  | constructor other name payload => cases declares

theorem Records.extend (records : declarations.Records log next)
    (extended : declarations.extend con name payload = .ok made) :
    made.Records (log ++ [.constructor con name payload]) next := by
  obtain ⟨params, constructors, stored, isNew, get?_made, owner?_made⟩ := exists_of_extend extended
  have wasVariant {other : TyCon} (same : other.number = con.number) :
      declarations.get? other = some (.variant params constructors) := (get?_congr same).trans stored
  have stillVariant {other : TyCon} {oldParams : List BoundVar} {old : List (String × Ty SchemeVar)}
      (found : declarations.get? other = some (.variant oldParams old)) :
      ∃ params constructors, made.get? other = some (.variant params constructors) := by
    rw [get?_made]
    split
    · exact ⟨_, _, rfl⟩
    · exact ⟨_, _, found⟩
  have constructors_eq := records.constructors_eq stored
  refine ⟨?_, ?_, ?_, ?_, ?_, ?_⟩
  · intro other found
    rw [declared_give, given_give, get?_made]
    by_cases same : other.number = con.number
    · rw [if_pos same, if_pos same.symm]
      -- The log may declare a type of this number in one way only, namely as the variant that is stored.
      have widened : ∀ entry ∈ declared log, entry.1.number = other.number →
          entry.2.widen (given log other.number ++ [(name, payload)])
            = .variant params (constructors ++ [(name, payload)]) := by
        intro entry among isEntry
        have before := records.get?_iff.mpr ⟨entry, among, isEntry, rfl⟩
        rw [wasVariant same] at before
        rw [Declaration.widen_append, ← Option.some.inj before, Declaration.widen]
      constructor
      · intro isFound
        obtain ⟨entry, among, isEntry, _⟩ := records.get?_iff.mp (wasVariant same)
        refine ⟨entry, among, isEntry, ?_⟩
        rw [widened entry among isEntry]
        exact (Option.some.inj isFound).symm
      · rintro ⟨entry, among, isEntry, rfl⟩
        rw [widened entry among isEntry]
    · rw [if_neg same, if_neg (Ne.symm same), List.append_nil]
      exact records.get?_iff
  · intro other
    rw [owner?_made, takers_give]
    by_cases same : other = name
    · rw [if_pos same, if_pos same.symm, List.getLast?_concat]
    · rw [if_neg same, if_neg (Ne.symm same), List.append_nil]
      exact records.owner?_eq other
  · intro other found isFound
    rw [get?_made] at isFound
    split at isFound
    · rename_i same
      rw [same]
      exact records.minted stored
    · exact records.minted isFound
  · intro other otherName otherPayload among
    rcases List.mem_append.mp among with inLog | isLast
    · obtain ⟨oldParams, old, found⟩ := records.isVariant inLog
      exact stillVariant found
    · cases List.mem_singleton.mp isLast
      exact stillVariant stored
  · rw [declared_give]
    exact records.ascending
  · intro number
    rw [given_give]
    by_cases same : con.number = number
    · rw [if_pos same, ← same, List.map_append, ← constructors_eq]
      refine List.nodup_append.mpr ⟨?_, List.pairwise_singleton _ _, ?_⟩
      · rw [constructors_eq]
        exact records.distinct _
      · intro old among last isLast sameName
        rw [sameName, List.mem_singleton.mp isLast] at among
        exact isNew among
    · rw [if_neg same, List.append_nil]
      exact records.distinct number

/-! ## What declared types answer -/

/-- Whether declared types answer as their log says.  A type that is known is a variant or an alias, and never
both; a variant lists the constructors that it has been given; and the owner of a constructor has it. -/
structure Follows (declarations : Declarations) (log : List Registration) : Prop where
  variant_iff : ∀ con, (declarations.constructors? con).isSome = true ↔
    ∃ variant ∈ variants log, variant.number = con.number
  alias_iff : ∀ con, declarations.abbreviates con = true ↔ ∃ other ∈ aliases log, other.number = con.number
  exclusive : ∀ con, ¬ ((declarations.constructors? con).isSome = true ∧ declarations.abbreviates con = true)
  listed : ∀ con listed, declarations.constructors? con = some listed →
    (∃ params, listed = (given log con.number).map fun entry => ⟨entry.1, ⟨params, entry.2⟩⟩) ∧
    (listed.map Constructor.name).Nodup
  owned : ∀ name con, declarations.owner? name = some con →
    ∃ listed, declarations.constructors? con = some listed ∧ name ∈ listed.map Constructor.name
  unowned : ∀ name, declarations.owner? name = none → ∀ con listed,
    declarations.constructors? con = some listed → name ∉ listed.map Constructor.name

theorem abbreviates_iff : declarations.abbreviates con = true ↔
    ∃ declaration, declarations.get? con = some declaration ∧ declaration.body?.isSome = true := by
  rw [abbreviates, body?]
  cases stored : declarations.get? con with
  | none => simp
  | some declaration => simp

theorem isSome_constructors?_iff : (declarations.constructors? con).isSome = true ↔
    ∃ declaration, declarations.get? con = some declaration ∧ declaration.body?.isNone = true := by
  rw [constructors?]
  cases stored : declarations.get? con with
  | none => simp
  | some declaration =>
      cases declaration with
      | variant params constructors => simp [Declaration.body?]
      | aliasOf template => simp [Declaration.body?]

theorem constructors?_eq_some_iff {listed : List Constructor} :
    declarations.constructors? con = some listed ↔ ∃ params constructors,
      declarations.get? con = some (.variant params constructors) ∧
        listed = constructors.map fun entry => ⟨entry.1, ⟨params, entry.2⟩⟩ := by
  rw [constructors?]
  split
  · rename_i params constructors stored
    rw [stored]
    constructor
    · rintro ⟨⟩
      exact ⟨params, constructors, rfl, rfl⟩
    · rintro ⟨_, _, ⟨⟩, rfl⟩
      rfl
  · rename_i notVariant
    constructor
    · rintro ⟨⟩
    · rintro ⟨params, constructors, stored, _⟩
      exact absurd stored (notVariant params constructors)

theorem exists_extend_iff (payload : Ty SchemeVar) :
    (∃ made, declarations.extend con name payload = .ok made) ↔
      ∃ listed, declarations.constructors? con = some listed ∧ name ∉ listed.map Constructor.name := by
  constructor
  · rintro ⟨made, extended⟩
    obtain ⟨params, constructors, stored, isNew, _⟩ := exists_of_extend extended
    refine ⟨_, constructors?_eq_some_iff.mpr ⟨params, constructors, stored, rfl⟩, ?_⟩
    rwa [List.map_map]
  · rintro ⟨listed, isListed, isNew⟩
    obtain ⟨params, constructors, stored, rfl⟩ := constructors?_eq_some_iff.mp isListed
    rw [List.map_map] at isNew
    rw [extend, stored]
    exact ⟨_, if_neg isNew⟩

theorem Records.exists_get?_iff (records : declarations.Records log next) (kind : Declaration → Bool)
    (kind_widen : ∀ declaration more, kind (declaration.widen more) = kind declaration) :
    (∃ declaration, declarations.get? con = some declaration ∧ kind declaration = true) ↔
      ∃ other ∈ ((declared log).filter fun entry => kind entry.2).map Prod.fst, other.number = con.number := by
  constructor
  · rintro ⟨declaration, stored, isKind⟩
    obtain ⟨entry, among, same, rfl⟩ := records.get?_iff.mp stored
    rw [kind_widen] at isKind
    exact ⟨_, List.mem_map_of_mem (List.mem_filter.mpr ⟨among, isKind⟩), same⟩
  · rintro ⟨other, among, same⟩
    obtain ⟨entry, inFilter, rfl⟩ := List.mem_map.mp among
    obtain ⟨inLog, isKind⟩ := List.mem_filter.mp inFilter
    refine ⟨_, records.get?_iff.mpr ⟨entry, inLog, same, rfl⟩, ?_⟩
    rw [kind_widen]
    exact isKind

theorem Records.offers_iff (records : declarations.Records log next) :
    (∃ listed, declarations.constructors? con = some listed ∧ name ∈ listed.map Constructor.name) ↔
      ∃ taker ∈ takers log name, taker.number = con.number := by
  constructor
  · rintro ⟨listed, isListed, among⟩
    obtain ⟨params, constructors, stored, rfl⟩ := constructors?_eq_some_iff.mp isListed
    rw [List.map_map] at among
    obtain ⟨⟨_, payload⟩, isGiven, rfl⟩ := List.mem_map.mp among
    rw [records.constructors_eq stored] at isGiven
    obtain ⟨taker, inLog, same⟩ := mem_given.mp isGiven
    exact ⟨taker, mem_takers.mpr ⟨payload, inLog⟩, same⟩
  · rintro ⟨taker, takes, same⟩
    obtain ⟨payload, inLog⟩ := mem_takers.mp takes
    obtain ⟨params, constructors, stored⟩ := records.isVariant inLog
    rw [get?_congr same] at stored
    refine ⟨_, constructors?_eq_some_iff.mpr ⟨params, constructors, stored, rfl⟩, ?_⟩
    rw [List.map_map, records.constructors_eq stored]
    exact List.mem_map.mpr ⟨(name, payload), mem_given.mpr ⟨taker, inLog, same⟩, rfl⟩

theorem Records.follows (records : declarations.Records log next) : declarations.Follows log where
  variant_iff con := by
    rw [isSome_constructors?_iff]
    exact records.exists_get?_iff (fun declaration => declaration.body?.isNone)
      fun declaration more => congrArg Option.isNone (declaration.body?_widen more)
  alias_iff con := by
    rw [abbreviates_iff]
    exact records.exists_get?_iff (fun declaration => declaration.body?.isSome)
      fun declaration more => congrArg Option.isSome (declaration.body?_widen more)
  exclusive con := by
    rw [isSome_constructors?_iff, abbreviates_iff]
    rintro ⟨⟨declaration, stored, hasNone⟩, other, otherStored, hasSome⟩
    rw [stored] at otherStored
    cases otherStored
    rw [Option.isNone_iff_eq_none.mp hasNone] at hasSome
    cases hasSome
  listed con listed isListed := by
    obtain ⟨params, constructors, stored, rfl⟩ := constructors?_eq_some_iff.mp isListed
    rw [records.constructors_eq stored]
    refine ⟨⟨params, rfl⟩, ?_⟩
    rw [List.map_map]
    exact records.distinct con.number
  owned name con isOwner := by
    rw [records.owner?_eq] at isOwner
    exact records.offers_iff.mpr ⟨con, List.mem_of_getLast? isOwner, rfl⟩
  unowned name noOwner con listed isListed among := by
    rw [records.owner?_eq, List.getLast?_eq_none_iff] at noOwner
    obtain ⟨taker, takes, _⟩ := records.offers_iff.mp ⟨listed, isListed, among⟩
    rw [noOwner] at takes
    cases takes

/-- Whether a type is still unknown, a variant or an alias, as it was before. -/
def Agrees (later earlier : Declarations) (con : TyCon) : Prop :=
  (later.constructors? con).isSome = (earlier.constructors? con).isSome ∧
    later.abbreviates con = earlier.abbreviates con

theorem Agrees.of_get?_eq (same : made.get? con = declarations.get? con) : made.Agrees declarations con := by
  rw [Agrees, constructors?, constructors?, abbreviates, abbreviates, body?, body?, same]
  exact ⟨rfl, rfl⟩

theorem Agrees.trans {last : Declarations} (second : last.Agrees made con) (first : made.Agrees declarations con) :
    last.Agrees declarations con :=
  ⟨second.1.trans first.1, second.2.trans first.2⟩

theorem Agrees.of_extend (extended : declarations.extend con name payload = .ok made) (other : TyCon) :
    made.Agrees declarations other := by
  obtain ⟨params, constructors, stored, _, get?_made, _⟩ := exists_of_extend extended
  by_cases same : other.number = con.number
  · have before := (get?_congr same).trans stored
    have after := (get?_made other).trans (if_pos same)
    rw [Agrees, constructors?, constructors?, abbreviates, abbreviates, body?, body?, before, after]
    exact ⟨rfl, rfl⟩
  · exact .of_get?_eq ((get?_made other).trans (if_neg same))

end Declarations

end TypedMatch
