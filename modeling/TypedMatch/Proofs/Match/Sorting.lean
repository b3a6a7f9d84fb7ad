import TypedMatch.Proofs.Coverage.ComputedHeads
import TypedMatch.Proofs.Match.Safety

/-!
# Heads sort values

The heads that a check computes for a declared type, and for a column that fits it and asks for something,
sort the values of the type: every value has exactly one of them.  The parts behind it are of the types that
the head lists, and a shape of the column accepts a value just if it demands something of the parts, one
shape for each, and they satisfy it.  The head that stands for all other literals has just those that the
column does not mention.
-/

set_option autoImplicit false

namespace TypedMatch

variable {env : Environment} {column : List Shape} {type : Ty Unit} {store grown : Store}
  {heads : List (Head MetaVar)} {value : Value} {parts : List Value}

/-- Whether heads that were computed for a column sort the values of a type.  The types of the parts are
read off the store. -/
structure Environment.Sorts (env : Environment) (column : List Shape) (type : Ty Unit) (store : Store)
    (heads : List (Head MetaVar)) : Prop where
  /-- Every value has exactly one of the heads. -/
  unique : ∀ value : Value, value.Inhabits env type →
    ∃! index : Fin heads.length, ∃ parts, heads[index].Opens value parts
  slots : ∀ head ∈ heads, head.arity = head.slots.length
  /-- The parts of a value are of the types that its head lists, in that order. -/
  parts : ∀ head ∈ heads, ∀ (value : Value) (parts : List Value), value.Inhabits env type →
    head.Opens value parts → Value.InhabitsList env parts (head.slots.map store.outline)
  /-- A shape accepts a value just if the parts satisfy, one by one, what it demands of them. -/
  exact : ∀ head ∈ heads, ∀ (value : Value) (parts : List Value), value.Inhabits env type →
    head.Opens value parts → ∀ shape ∈ column,
      (shape.accepts value = true ↔ ∃ demanded, head.demands shape = some demanded ∧
        demanded.length = head.arity ∧ Shape.acceptsList demanded parts = true)
  /-- The head of the other integers has those that no shape of the column mentions. -/
  otherInts : ∀ listed, .intBesides listed ∈ heads → ∀ literal : Int,
    (Head.intBesides listed : Head MetaVar).Opens (.int literal) [] ↔ .int literal ∉ column
  otherStrs : ∀ listed, .strBesides listed ∈ heads → ∀ literal : String,
    (Head.strBesides listed : Head MetaVar).Opens (.str literal) [] ↔ .str literal ∉ column

/-! ## Heads that are listed for an outline -/

theorem Environment.Enumerates.headOf_retype {change : Ty MetaVar → Ty Unit}
    (enumerates : env.Enumerates column type (heads.map (Head.retype change))) :
    ∀ head ∈ heads, env.HeadOf column type (head.retype change) :=
  fun _ among => (enumerates.mem_iff _).mp (List.mem_map_of_mem among)

theorem Environment.Enumerates.existsUnique_index {change : Ty MetaVar → Ty Unit}
    (enumerates : env.Enumerates column type (heads.map (Head.retype change)))
    (rooted : env.RootDeclared type) (inhabits : value.Inhabits env type)
    (visible : ∀ mark, value ≠ .sealed mark) :
    ∃! index : Fin heads.length, ∃ parts, heads[index].Opens value parts := by
  obtain ⟨found, parts, foundOf, opens, _⟩ := exists_headOf column inhabits visible
  obtain ⟨head, among, rfl⟩ := List.mem_map.mp ((enumerates.mem_iff found).mpr foundOf)
  obtain ⟨position, inBounds, rfl⟩ := List.getElem_of_mem among
  refine ⟨⟨position, inBounds⟩, ⟨parts, Head.opens_retype.mp opens⟩, ?_⟩
  rintro other ⟨others, otherOpens⟩
  -- Two heads of one value have one outline, and no outline is listed twice.
  have otherOf := enumerates.headOf_retype heads[other] (List.getElem_mem other.isLt)
  have sameHead := otherOf.unique rooted foundOf (Head.opens_retype.mpr otherOpens) opens
  have otherBound : other.val < (heads.map (Head.retype change)).length := by
    rw [List.length_map]
    exact other.isLt
  have bound : position < (heads.map (Head.retype change)).length := by
    rw [List.length_map]
    exact inBounds
  have samePlace : (heads.map (Head.retype change))[other.val]
      = (heads.map (Head.retype change))[position] := by
    rw [List.getElem_map, List.getElem_map]
    exact sameHead
  exact Fin.ext (enumerates.distinct.getElem_inj_iff.mp samePlace)

theorem Environment.Enumerates.sorts
    (enumerates : env.Enumerates column type (heads.map (Head.retype grown.outline)))
    (rooted : env.RootDeclared type) (columnFits : ∀ shape ∈ column, shape.Fits env type)
    (asks : ∃ shape ∈ column, shape.isBlank = false) : env.Sorts column type grown heads := by
  have headOf := enumerates.headOf_retype
  exact
    { unique := by
        intro value inhabits
        obtain ⟨shape, among, shapeAsks⟩ := asks
        refine enumerates.existsUnique_index rooted inhabits ?_
        rintro mark rfl
        obtain ⟨root, stands, isSealed⟩ := inhabits
        exact (columnFits shape among).not_isSealed shapeAsks stands isSealed
      slots := fun head _ => head.length_slots.symm
      parts := by
        intro head among value parts inhabits opens
        rw [← Head.slots_retype_outline]
        exact (headOf head among).inhabits_parts rooted inhabits (Head.opens_retype.mpr opens)
      exact := by
        intro head among value parts inhabits opens shape inColumn
        have accepts := (headOf head among).accepts_iff rooted inColumn (columnFits shape inColumn)
          inhabits (Head.opens_retype.mpr opens)
        rwa [Head.demands_retype, Head.arity_retype] at accepts
      otherInts := by
        intro listed among literal
        have isListed : listed = listedInts column := by
          cases headOf _ among
          rfl
        simp [Head.opens_iff, isListed, mem_listedInts]
      otherStrs := by
        intro listed among literal
        have isListed : listed = listedStrs column := by
          cases headOf _ among
          rfl
        simp [Head.opens_iff, isListed, mem_listedStrs] }

/-! ## Heads that are computed -/

/-- The heads of a declared type are computed for every column that fits the type and asks for something,
and they sort the values of the type. -/
theorem Environment.heads_sort {type : Ty MetaVar} (acyclic : store.Acyclic) (owned : env.OwnedBy store)
    (typeOwned : store.Owns type.leaves)
    (rooted : (env.outline store).RootDeclared (store.outline type))
    (columnFits : ∀ shape ∈ column, shape.Fits (env.outline store) (store.outline type))
    (asks : ∃ shape ∈ column, shape.isBlank = false) (level : Level) :
    ∃ heads grown, env.heads level store type column = .ok (heads, grown) ∧ grown.Extends store ∧
      (env.outline store).Sorts column (store.outline type) grown heads := by
  obtain ⟨listed, lists, enumerates⟩ := exists_lists rooted columnFits asks
  rcases heads_computed_or_error acyclic owned level (.refl store) typeOwned column with
    ⟨heads, grown, computes⟩ | ⟨unlisted, _⟩
  · rw [lists.unique computes.lists] at enumerates
    exact ⟨heads, grown, computes.runs, computes.growth, enumerates.sorts rooted columnFits asks⟩
  · exact absurd lists (unlisted listed)

namespace Match

/-- A column of queues that begin with zero, of any queue, and of queues with one item, which is any or is
five. -/
def queueColumn : List Shape :=
  [.ctor "Front" (.tuple [.int 0, .wildcard]), .wildcard,
    .ctor "Front" (.tuple [.wildcard, .ctor "Empty" .unit]),
    .ctor "Front" (.tuple [.int 5, .ctor "Empty" .unit])]

theorem queueColumn_fits {env : Environment} {type : Ty Unit}
    (fits : ∀ branch ∈ queueMatch.branches, branch.pattern.Fits env type) :
    ∀ shape ∈ queueColumn, shape.Fits env type := by
  have shapeFits (branch : Branch) (among : branch ∈ queueMatch.branches) {shape : Shape}
      (shaped : Shape.ofPattern branch.pattern = .ok shape) : shape.Fits env type := by
    obtain ⟨other, otherShaped, otherFits⟩ := Shape.exists_ofPattern (fits branch among)
    cases shaped.symm.trans otherShaped
    exact otherFits
  refine List.forall_mem_cons.mpr ⟨?_, List.forall_mem_cons.mpr ⟨trivial,
    List.forall_mem_cons.mpr ⟨?_, List.forall_mem_singleton.mpr ?_⟩⟩⟩
  · exact shapeFits _ (.head _) rfl
  · exact shapeFits _ (.tail _ (.head _)) rfl
  · exact shapeFits _ (.tail _ (.tail _ (.head _))) rfl

/-- Queues of integers, seen through links, are sorted by whether they are empty or have a front item. -/
theorem linkedQueue_heads_sort :
    let env := queueDeclarations.toEnvironment
    let outlined := env.outline linkedStore
    linkedStore.Acyclic ∧ env.OwnedBy linkedStore ∧ linkedStore.Owns linkedMatch.scrutinee.leaves ∧
      outlined.RootDeclared queueType ∧ (∀ shape ∈ queueColumn, shape.Fits outlined queueType) ∧
      (∃ shape ∈ queueColumn, shape.isBlank = false) ∧
      ∃ heads grown, env.heads .bottom linkedStore linkedMatch.scrutinee queueColumn
          = .ok (heads, grown) ∧
        heads = [.constant "Empty",
          .applied "Front" (.product [.var ⟨1⟩, .data queueCon [.var ⟨1⟩]])] ∧
        grown.Extends linkedStore ∧ outlined.Sorts queueColumn queueType grown heads := by
  have wellTyped := linkedMatch_wellTyped
  have rooted := (wellTyped.built.sound_of_defined wellTyped.defined).rootDeclared
  have columnFits := queueColumn_fits wellTyped.fits
  have asks : ∃ shape ∈ queueColumn, shape.isBlank = false := ⟨_, .head _, rfl⟩
  obtain ⟨heads, grown, computed, growth, sorts⟩ := Environment.heads_sort wellTyped.acyclic
    wellTyped.envOwned wellTyped.typeOwned rooted columnFits asks .bottom
  refine ⟨wellTyped.acyclic, wellTyped.envOwned, wellTyped.typeOwned, rooted, columnFits, asks, heads,
    grown, computed, ?_, growth, sorts⟩
  have listed : (queueDeclarations.toEnvironment.heads .bottom linkedStore linkedMatch.scrutinee
      queueColumn).map Prod.fst = .ok [.constant "Empty",
        .applied "Front" (.product [.var ⟨1⟩, .data queueCon [.var ⟨1⟩]])] := rfl
  rw [computed] at listed
  exact Except.ok.inj listed

end Match

end TypedMatch
