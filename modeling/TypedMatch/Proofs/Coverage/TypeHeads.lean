import TypedMatch.Proofs.Coverage.Opening
import TypedMatch.Proofs.Value.Similar

/-!
# The heads that a type has

`Environment.HeadOf` says which heads the values of a type have, as far as a column of shapes tells
literals apart.  The heads are complete and disjoint: every value that a pattern can look into is
opened by one of them, and by no other.  Taking a value, a shape or a witness apart by such a head,
or putting one together, keeps it well typed.
-/

set_option autoImplicit false

namespace TypedMatch

def listedInts (column : List Shape) : List Int := (column.filterMap Shape.int?).eraseDups

def listedStrs (column : List Shape) : List String := (column.filterMap Shape.str?).eraseDups

/-- The heads of a type's values, where a column says which literals stand for themselves. -/
inductive Environment.HeadOf (env : Environment) (column : List Shape) (type : Ty Unit) :
    Head Unit → Prop where
  | unit : env.Root type (.base .unit) → HeadOf env column type .unit
  | bool {value : Bool} : env.Root type (.base .bool) → HeadOf env column type (.bool value)
  | int {value : Int} : env.Root type (.base .int) → value ∈ listedInts column →
      HeadOf env column type (.int value)
  | str {value : String} : env.Root type (.base .string) → value ∈ listedStrs column →
      HeadOf env column type (.str value)
  | intBesides : env.Root type (.base .int) →
      HeadOf env column type (.intBesides (listedInts column))
  | strBesides : env.Root type (.base .string) →
      HeadOf env column type (.strBesides (listedStrs column))
  | nil {element : Ty Unit} : env.Root type (.list element) → HeadOf env column type .nil
  | cons {element : Ty Unit} : env.Root type (.list element) →
      HeadOf env column type (.cons element)
  | tuple {components : List (Ty Unit)} : env.Root type (.product components) →
      HeadOf env column type (.tuple components)
  | constant {name : String} : env.Offers type name .unit →
      HeadOf env column type (.constant name)
  | applied {name : String} {payload : Ty Unit} : env.Offers type name payload →
      payload ≠ .unit → HeadOf env column type (.applied name payload)

variable {env : Environment} {column : List Shape} {type : Ty Unit} {head : Head Unit}
  {value : Value} {parts : List Value}

/-! ## Listed literals -/

theorem mem_literals_iff {Literal : Type} [BEq Literal] [LawfulBEq Literal]
    {read? : Shape → Option Literal} {write : Literal → Shape}
    (reads : ∀ shape literal, read? shape = some literal ↔ shape = write literal) {literal : Literal} :
    literal ∈ (column.filterMap read?).eraseDups ↔ write literal ∈ column := by
  rw [List.mem_eraseDups, List.mem_filterMap]
  simp only [reads, exists_eq_right]

theorem mem_listedInts {literal : Int} : literal ∈ listedInts column ↔ .int literal ∈ column :=
  mem_literals_iff fun shape _ => by cases shape <;> simp [Shape.int?]

theorem mem_listedStrs {literal : String} : literal ∈ listedStrs column ↔ .str literal ∈ column :=
  mem_literals_iff fun shape _ => by cases shape <;> simp [Shape.str?]

/-- The integer that stands for those not listed fits into 64 bits, as the column is not longer than
an array can be. -/
theorem isWord_sampleInt (short : column.length < 2 ^ 63) : IsWord (sampleInt (listedInts column)) := by
  obtain ⟨_, nonnegative, bounded⟩ := sampleInt_spec (listedInts column)
  have fewListed : (listedInts column).length ≤ column.length :=
    Nat.le_trans (length_eraseDups_le _) (List.length_filterMap_le _ _)
  exact ⟨by omega, by omega⟩

/-! ## The unit type -/

theorem Environment.Root.eq_unit {root : Ty Unit} (stands : env.Root .unit root) : root = .unit :=
  stands.eq_of_not_alias rfl

theorem Value.Inhabits.eq_unit (inhabits : value.Inhabits env .unit) : value = .unit := by
  cases value with
  | unit => rfl
  | bool _ => cases inhabits.eq_unit
  | int _ => cases inhabits.2.eq_unit
  | str _ => cases inhabits.eq_unit
  | nil =>
      obtain ⟨_, stands⟩ := inhabits
      cases stands.eq_unit
  | cons _ _ | tuple _ =>
      obtain ⟨_, stands, _⟩ := inhabits
      cases stands.eq_unit
  | ctor _ _ =>
      obtain ⟨_, ⟨_, _, _, _, stands, _⟩, _⟩ := inhabits
      cases stands.eq_unit
  | sealed _ =>
      obtain ⟨_, stands, isSealed⟩ := inhabits
      rw [stands.eq_unit] at isSealed
      exact isSealed.elim

theorem Shape.Fits.accepts_unit {shape : Shape} (fits : shape.Fits env .unit) :
    shape.accepts .unit = true := by
  cases shape with
  | wildcard | unit => rfl
  | bool _ => cases fits.eq_unit
  | int _ => cases fits.2.eq_unit
  | str _ => cases fits.eq_unit
  | nil =>
      obtain ⟨_, stands⟩ := fits
      cases stands.eq_unit
  | cons _ _ | tuple _ =>
      obtain ⟨_, stands, _⟩ := fits
      cases stands.eq_unit
  | ctor _ _ =>
      obtain ⟨_, ⟨_, _, _, _, stands, _⟩, _⟩ := fits
      cases stands.eq_unit

/-! ## Completeness and disjointness -/

theorem exists_headOf (column : List Shape) (inhabits : value.Inhabits env type)
    (visible : ∀ mark, value ≠ .sealed mark) :
    ∃ head parts, env.HeadOf column type head ∧ head.Opens value parts ∧
      Value.InhabitsList env parts head.slots := by
  cases value with
  | unit => exact ⟨.unit, [], .unit inhabits, .unit, trivial⟩
  | bool value => exact ⟨.bool value, [], .bool inhabits, .bool value, trivial⟩
  | int value =>
      by_cases listed : value ∈ listedInts column
      · exact ⟨.int value, [], .int inhabits.2 listed, .int value, trivial⟩
      · exact ⟨.intBesides _, [], .intBesides inhabits.2, .intBesides listed, trivial⟩
  | str value =>
      by_cases listed : value ∈ listedStrs column
      · exact ⟨.str value, [], .str inhabits listed, .str value, trivial⟩
      · exact ⟨.strBesides _, [], .strBesides inhabits, .strBesides listed, trivial⟩
  | nil =>
      obtain ⟨element, stands⟩ := inhabits
      exact ⟨.nil, [], .nil stands, .nil, trivial⟩
  | cons first rest =>
      obtain ⟨element, stands, firstInhabits, restInhabits⟩ := inhabits
      exact ⟨.cons element, [first, rest], .cons stands, .cons element first rest, firstInhabits,
        restInhabits, trivial⟩
  | tuple values =>
      obtain ⟨components, stands, valuesInhabit⟩ := inhabits
      exact ⟨.tuple components, values, .tuple stands, .tuple valuesInhabit.length_eq,
        valuesInhabit⟩
  | ctor name carried =>
      obtain ⟨payload, offered, carriedInhabits⟩ := inhabits
      by_cases isUnit : payload = .unit
      · subst isUnit
        exact ⟨.constant name, [], .constant offered, .constant name carried, trivial⟩
      · exact ⟨.applied name payload, [carried], .applied offered isUnit,
          .applied name payload carried, carriedInhabits, trivial⟩
  | sealed mark => exact absurd rfl (visible mark)

theorem Environment.HeadOf.unique (rooted : env.RootDeclared type) {other : Head Unit}
    (headOf : env.HeadOf column type head) (otherOf : env.HeadOf column type other)
    {others : List Value} (opens : head.Opens value parts) (otherOpens : other.Opens value others) :
    head = other := by
  cases opens with
  | int literal =>
      cases otherOpens with
      | int _ => rfl
      | intBesides unlisted =>
          cases headOf with
          | int _ listed =>
              cases otherOf
              exact absurd listed unlisted
  | str literal =>
      cases otherOpens with
      | str _ => rfl
      | strBesides unlisted =>
          cases headOf with
          | str _ listed =>
              cases otherOf
              exact absurd listed unlisted
  | intBesides unlisted =>
      cases otherOpens with
      | int _ =>
          cases otherOf with
          | int _ listed =>
              cases headOf
              exact absurd listed unlisted
      | intBesides _ =>
          cases headOf
          cases otherOf
          rfl
  | strBesides unlisted =>
      cases otherOpens with
      | str _ =>
          cases otherOf with
          | str _ listed =>
              cases headOf
              exact absurd listed unlisted
      | strBesides _ =>
          cases headOf
          cases otherOf
          rfl
  | cons element first rest =>
      cases otherOpens
      cases headOf with
      | cons stands =>
          cases otherOf with
          | cons otherStands =>
              cases stands.unique otherStands
              rfl
  | tuple sameLength =>
      cases otherOpens
      cases headOf with
      | tuple stands =>
          cases otherOf with
          | tuple otherStands =>
              cases stands.unique otherStands
              rfl
  | constant name carried =>
      cases otherOpens with
      | constant => rfl
      | applied =>
          cases headOf with
          | constant offered =>
              cases otherOf with
              | applied otherOffered notUnit => exact absurd (otherOffered.unique rooted offered) notUnit
  | applied name payload carried =>
      cases headOf with
      | applied offered notUnit =>
          cases otherOpens with
          | constant =>
              cases otherOf with
              | constant otherOffered => exact absurd (offered.unique rooted otherOffered) notUnit
          | applied =>
              cases otherOf with
              | applied otherOffered _ =>
                  rw [offered.unique rooted otherOffered]
  | _ =>
      cases otherOpens
      rfl

theorem Environment.HeadOf.inhabits_parts (rooted : env.RootDeclared type)
    (headOf : env.HeadOf column type head) (inhabits : value.Inhabits env type)
    (opens : head.Opens value parts) : Value.InhabitsList env parts head.slots := by
  have visible : ∀ mark, value ≠ .sealed mark := by
    rintro mark rfl
    cases opens
  obtain ⟨other, others, otherOf, otherOpens, othersInhabit⟩ :=
    exists_headOf column inhabits visible
  cases headOf.unique rooted otherOf opens otherOpens
  rw [opens.unique otherOpens]
  exact othersInhabit

namespace Environment.HeadOf

theorem inhabits_assemble (short : column.length < 2 ^ 63) (headOf : env.HeadOf column type head)
    (partsInhabit : Value.InhabitsList env parts head.slots)
    (columnFits : ∀ shape ∈ column, shape.Fits env type) :
    (head.assemble parts).Inhabits env type := by
  cases headOf with
  | unit stands => exact stands
  | bool stands => exact stands
  | int stands listed => exact ⟨(columnFits _ (mem_listedInts.mp listed)).1, stands⟩
  | str stands _ => exact stands
  | intBesides stands => exact ⟨isWord_sampleInt short, stands⟩
  | strBesides stands => exact stands
  | nil stands => exact ⟨_, stands⟩
  | cons stands =>
      obtain ⟨first, rest, rfl⟩ := List.length_eq_two.mp partsInhabit.length_eq
      exact ⟨_, stands, partsInhabit.1, partsInhabit.2.1⟩
  | tuple stands => exact ⟨_, stands, partsInhabit⟩
  | constant offered => exact ⟨_, offered, Environment.root_self rfl⟩
  | applied offered _ =>
      obtain ⟨carried, rfl⟩ := List.length_eq_one_iff.mp partsInhabit.length_eq
      exact ⟨_, offered, partsInhabit.1⟩

theorem similar_assemble (rooted : env.RootDeclared type) (headOf : env.HeadOf column type head)
    (inhabits : value.Inhabits env type) (opens : head.Opens value parts) {others : List Value}
    (similar : Value.SimilarList parts others) : value.Similar (head.assemble others) := by
  cases opens with
  | cons element first rest =>
      obtain ⟨_, _, rfl⟩ := List.length_eq_two.mp similar.length_eq.symm
      exact ⟨similar.1, similar.2.1⟩
  | tuple sameLength => exact similar
  | constant name carried =>
      obtain ⟨payload, offered, carriedInhabits⟩ := inhabits
      cases headOf with
      | constant isConstant =>
          cases offered.unique rooted isConstant
          rw [carriedInhabits.eq_unit]
          exact ⟨rfl, trivial⟩
  | applied name type carried =>
      obtain ⟨_, rfl⟩ := List.length_eq_one_iff.mp similar.length_eq.symm
      exact ⟨rfl, similar.1⟩
  | bool _ => rfl
  | _ => trivial

theorem reaches (headOf : env.HeadOf column type head) {slot : Ty Unit}
    (among : slot ∈ head.slots) : env.Reaches type slot := by
  cases headOf with
  | @cons element stands =>
      rcases List.mem_pair.mp among with rfl | rfl
      · exact .element .self stands
      · exact .root .self stands
  | tuple stands => exact .component .self stands among
  | applied offered _ =>
      cases List.mem_singleton.mp among
      exact .payload .self offered
  | _ => cases among

theorem sketches_rebuild (short : column.length < 2 ^ 63) (headOf : env.HeadOf column type head)
    {witnesses : List Witness} (sketch : Witness.SketchesList env witnesses head.slots)
    (columnFits : ∀ shape ∈ column, shape.Fits env type) :
    (head.rebuild witnesses).Sketches env type := by
  cases headOf with
  | unit stands => exact stands
  | bool stands => exact stands
  | int stands listed => exact ⟨(columnFits _ (mem_listedInts.mp listed)).1, stands⟩
  | str stands _ => exact stands
  | intBesides stands => exact ⟨isWord_sampleInt short, stands⟩
  | strBesides stands => exact stands
  | nil stands => exact ⟨_, stands⟩
  | cons stands =>
      obtain ⟨first, rest, rfl⟩ := List.length_eq_two.mp sketch.length_eq
      exact ⟨_, stands, sketch.1, sketch.2.1⟩
  | tuple stands => exact ⟨_, stands, sketch⟩
  | constant offered => exact offered
  | applied offered notUnit =>
      obtain ⟨inner, rfl⟩ := List.length_eq_one_iff.mp sketch.length_eq
      exact ⟨_, offered, notUnit, sketch.1⟩

theorem fits_demands (rooted : env.RootDeclared type) (headOf : env.HeadOf column type head)
    {shape : Shape} (fits : shape.Fits env type) {demanded : List Shape}
    (demands : head.demands shape = some demanded) :
    Shape.FitsList env demanded head.slots := by
  cases shape with
  | wildcard =>
      cases demands
      rw [← Head.length_slots]
      exact Shape.fitsList_replicate_wildcard head.slots
  | cons first rest =>
      obtain ⟨element, stands, firstFits, restFits⟩ := fits
      cases headOf with
      | cons otherStands =>
          cases demands
          cases stands.unique otherStands
          exact ⟨firstFits, restFits, trivial⟩
      | _ => cases demands
  | tuple shapes =>
      obtain ⟨components, stands, shapesFit⟩ := fits
      cases headOf with
      | tuple otherStands =>
          rw [Head.demands, Option.ite_none_right_eq_some] at demands
          cases demands.2
          cases stands.unique otherStands
          exact shapesFit
      | _ => cases demands
  | ctor tag inner =>
      obtain ⟨payload, offered, innerFits⟩ := fits
      cases headOf with
      | constant otherOffered =>
          rw [Head.demands, Option.ite_none_right_eq_some] at demands
          cases demands.2
          exact trivial
      | applied otherOffered _ =>
          rw [Head.demands, Option.ite_none_right_eq_some] at demands
          obtain ⟨rfl, isDemanded⟩ := demands
          cases isDemanded
          cases offered.unique rooted otherOffered
          exact ⟨innerFits, trivial⟩
      | _ => cases demands
  | unit | nil =>
      cases headOf <;> cases demands
      exact trivial
  | bool _ | int _ | str _ =>
      cases headOf <;> try cases demands
      rw [Head.demands, Option.ite_none_right_eq_some] at demands
      cases demands.2
      exact trivial

theorem discerns (rooted : env.RootDeclared type) (headOf : env.HeadOf column type head)
    {shape : Shape} (among : shape ∈ column) (fits : shape.Fits env type) (inhabits : value.Inhabits env type)
    (opens : head.Opens value parts) : head.Discerns shape value := by
  cases opens with
  | intBesides unlisted =>
      cases headOf
      cases shape with
      | int literal => exact mem_listedInts.mpr among
      | _ => exact trivial
  | strBesides unlisted =>
      cases headOf
      cases shape with
      | str literal => exact mem_listedStrs.mpr among
      | _ => exact trivial
  | constant name carried =>
      cases shape with
      | ctor tag inner =>
          rintro rfl
          obtain ⟨payload, offered, innerFits⟩ := fits
          obtain ⟨otherPayload, otherOffered, carriedInhabits⟩ := inhabits
          cases headOf with
          | constant isConstant =>
              cases offered.unique rooted isConstant
              cases otherOffered.unique rooted isConstant
              rw [carriedInhabits.eq_unit]
              exact innerFits.accepts_unit
      | _ => exact trivial
  | _ => exact trivial

/-- A shape of the column accepts a value of the type if it accepts, by what it demands, the parts
behind the value's head. -/
theorem accepts_eq (rooted : env.RootDeclared type) (headOf : env.HeadOf column type head)
    {shape : Shape} (among : shape ∈ column) (fits : shape.Fits env type) (inhabits : value.Inhabits env type)
    (opens : head.Opens value parts) :
    shape.accepts value
      = (head.demands shape).any fun demanded => Shape.acceptsList demanded parts :=
  opens.accepts_eq (headOf.discerns rooted among fits inhabits opens)

theorem accepts_iff (rooted : env.RootDeclared type)
    (headOf : env.HeadOf column type head) {shape : Shape} (among : shape ∈ column)
    (fits : shape.Fits env type) (inhabits : value.Inhabits env type)
    (opens : head.Opens value parts) :
    shape.accepts value = true ↔ ∃ demanded, head.demands shape = some demanded ∧
      demanded.length = head.arity ∧ Shape.acceptsList demanded parts = true := by
  rw [headOf.accepts_eq rooted among fits inhabits opens]
  cases demands : head.demands shape with
  | none => simp
  | some demanded => simp [Head.length_demands demands]

end Environment.HeadOf

end TypedMatch
