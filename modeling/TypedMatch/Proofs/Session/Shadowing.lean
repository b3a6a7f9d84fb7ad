import TypedMatch.Proofs.Session.Registry

/-!
# Constructors of one name

Several variants may have a constructor of one name.  Its owner is the variant that was given it last, and that
is the variant declared last among them just if none of them was declared after the owner.
-/

set_option autoImplicit false

namespace TypedMatch

namespace Declarations

open Registration

/-- Whether a type is a variant that has a constructor of a name. -/
def offers (declarations : Declarations) (con : TyCon) (name : String) : Bool :=
  (declarations.constructors? con).any fun listed => (listed.map Constructor.name).contains name

/-- The variant declared last among those that have a constructor of a name. -/
def newest? (declarations : Declarations) (log : List Registration) (name : String) : Option TyCon :=
  ((variants log).filter fun variant => declarations.offers variant name).getLast?

variable {declarations : Declarations} {log : List Registration} {next : Nat} {name : String}

theorem offers_eq_true_iff {con : TyCon} : declarations.offers con name = true ↔
    ∃ listed, declarations.constructors? con = some listed ∧ name ∈ listed.map Constructor.name := by
  rw [offers, Option.any_eq_true]
  simp only [List.contains_iff_mem]

theorem Records.ascending_variants (records : declarations.Records log next) :
    (variants log).Pairwise fun variant later => variant.number < later.number :=
  List.pairwise_map.mpr (records.ascending.filter _)

theorem le_of_getLast? {cons : List TyCon} (ascending : cons.Pairwise fun con later => con.number < later.number)
    {last : TyCon} (isLast : cons.getLast? = some last) : ∀ con ∈ cons, con.number ≤ last.number := by
  obtain ⟨others, rfl⟩ := List.getLast?_eq_some_iff.mp isLast
  obtain ⟨_, _, below⟩ := List.pairwise_append.mp ascending
  intro con among
  rcases List.mem_append.mp among with inOthers | isOne
  · exact Nat.le_of_lt (below con inOthers last (.head _))
  · rw [List.mem_singleton.mp isOne]

theorem Records.exists_newest? (records : declarations.Records log next) {taker : TyCon}
    (takes : taker ∈ takers log name) :
    ∃ newest, declarations.newest? log name = some newest ∧ taker.number ≤ newest.number := by
  let offering := (variants log).filter fun variant => declarations.offers variant name
  have isVariant : ∃ variant ∈ variants log, variant.number = taker.number := by
    obtain ⟨listed, isListed, _⟩ := records.offers_iff.mpr ⟨taker, takes, rfl⟩
    exact (records.follows.variant_iff taker).mp (Option.isSome_iff_exists.mpr ⟨listed, isListed⟩)
  obtain ⟨variant, inLog, same⟩ := isVariant
  have among : variant ∈ offering := by
    refine List.mem_filter.mpr ⟨inLog, offers_eq_true_iff.mpr ?_⟩
    exact records.offers_iff.mpr ⟨taker, takes, same.symm⟩
  have ascending := records.ascending_variants.filter fun variant => declarations.offers variant name
  cases isLast : offering.getLast? with
  | none =>
      rw [List.getLast?_eq_none_iff.mp isLast] at among
      cases among
  | some newest =>
      refine ⟨newest, isLast, ?_⟩
      rw [← same]
      exact le_of_getLast? ascending isLast variant among

theorem Records.taker_of_newest? (records : declarations.Records log next) {newest : TyCon}
    (isNewest : declarations.newest? log name = some newest) :
    ∃ taker ∈ takers log name, taker.number = newest.number := by
  have among := List.mem_of_getLast? isNewest
  exact records.offers_iff.mp (offers_eq_true_iff.mp (List.mem_filter.mp among).2)

theorem Records.owner?_eq_none_iff (records : declarations.Records log next) :
    declarations.owner? name = none ↔ declarations.newest? log name = none := by
  rw [records.owner?_eq]
  constructor
  · intro noTaker
    cases isNewest : declarations.newest? log name with
    | none => rfl
    | some newest =>
        obtain ⟨taker, takes, _⟩ := records.taker_of_newest? isNewest
        rw [List.getLast?_eq_none_iff.mp noTaker] at takes
        cases takes
  · intro noNewest
    cases isLast : (takers log name).getLast? with
    | none => rfl
    | some taker =>
        obtain ⟨newest, isNewest, _⟩ := records.exists_newest? (List.mem_of_getLast? isLast)
        rw [noNewest] at isNewest
        cases isNewest

theorem Records.owner_newest_iff (records : declarations.Records log next) :
    (declarations.owner? name).map TyCon.number = (declarations.newest? log name).map TyCon.number ↔
      ∀ owner, declarations.owner? name = some owner → ∀ taker ∈ takers log name, taker.number ≤ owner.number := by
  cases isOwner : declarations.owner? name with
  | none =>
      rw [records.owner?_eq_none_iff.mp isOwner]
      exact iff_of_true rfl fun owner isOwner => nomatch isOwner
  | some owner =>
      rw [records.owner?_eq] at isOwner
      obtain ⟨newest, isNewest, notNewer⟩ := records.exists_newest? (List.mem_of_getLast? isOwner)
      rw [isNewest, Option.map_some, Option.map_some, Option.some.injEq]
      constructor
      · rintro same _ ⟨⟩ taker takes
        obtain ⟨_, isLast, below⟩ := records.exists_newest? takes
        rw [isNewest] at isLast
        cases isLast
        omega
      · intro noneNewer
        obtain ⟨taker, takes, same⟩ := records.taker_of_newest? isNewest
        have below := noneNewer owner rfl taker takes
        omega

end Declarations

namespace Session

open Registration

variable {history : List (Request × Answer)} {last : Session}

/-- The owner of a constructor is the type that was given it last, and nothing if none was.  It is the variant
declared last among those that have the constructor just if no type that was given it was declared later. -/
theorem owner_of_performs {store : Store} (performed : Performs ⟨store, .empty⟩ history last) (name : String) :
    last.declarations.owner? name = (takers (registrations history) name).getLast? ∧
    (last.declarations.owner? name = none ↔
      last.declarations.newest? (registrations history) name = none) ∧
    ((last.declarations.owner? name).map TyCon.number
        = (last.declarations.newest? (registrations history) name).map TyCon.number ↔
      ∀ owner, last.declarations.owner? name = some owner →
        ∀ taker ∈ takers (registrations history) name, taker.number ≤ owner.number) := by
  have records := performed.records (Declarations.records_empty store.nextCon)
  exact ⟨records.owner?_eq name, records.owner?_eq_none_iff, records.owner_newest_iff⟩

def inTurn : List (Request × Answer) :=
  [(.addVariant "t" 0, .declared ⟨⟨0, "t"⟩, []⟩),
    (.extend ⟨0, "t"⟩ "A" (.base .unit), .done),
    (.addVariant "t" 0, .declared ⟨⟨1, "t"⟩, []⟩),
    (.extend ⟨1, "t"⟩ "A" (.base .unit), .done)]

theorem inTurn_owner : ∃ last, Performs ⟨.empty, .empty⟩ inTurn last ∧
    (last.declarations.owner? "A").map TyCon.number = some 1 ∧
    (last.declarations.newest? (registrations inTurn) "A").map TyCon.number = some 1 := by
  have performed : ∃ last, Performs ⟨.empty, .empty⟩ inTurn last :=
    ⟨_, .next rfl (.next rfl (.next rfl (.next rfl (.none _))))⟩
  obtain ⟨last, performed⟩ := performed
  obtain ⟨isLast, _, newest_iff⟩ := owner_of_performs performed "A"
  have isOwner : last.declarations.owner? "A" = some ⟨1, "t"⟩ := isLast
  have noneNewer : ∀ owner, last.declarations.owner? "A" = some owner →
      ∀ taker ∈ takers (registrations inTurn) "A", taker.number ≤ owner.number := by
    intro owner found
    rw [isOwner] at found
    cases found
    decide
  have same := newest_iff.mpr noneNewer
  rw [isOwner] at same
  exact ⟨last, performed, congrArg (Option.map TyCon.number) isOwner, same.symm⟩

/-- Two variants of one name of which the first gets a constructor after the second has got one of that name. -/
def outOfTurn : List (Request × Answer) :=
  [(.addVariant "t" 0, .declared ⟨⟨0, "t"⟩, []⟩),
    (.addVariant "t" 0, .declared ⟨⟨1, "t"⟩, []⟩),
    (.extend ⟨1, "t"⟩ "A" (.base .unit), .done),
    (.extend ⟨0, "t"⟩ "A" (.base .unit), .done)]

/-- The constructor belongs to the first, though the second was declared later and has it as well. -/
theorem outOfTurn_owner : ∃ last, Performs ⟨.empty, .empty⟩ outOfTurn last ∧
    last.declarations.owner? "A" = some ⟨0, "t"⟩ ∧
    last.declarations.newest? (registrations outOfTurn) "A" = some ⟨1, "t"⟩ :=
  ⟨_, .next rfl (.next rfl (.next rfl (.next rfl (.none _)))), rfl, rfl⟩

end Session

end TypedMatch
