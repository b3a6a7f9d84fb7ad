import TypedMatch.Coverage.Check
import TypedMatch.Proofs.Coverage.Gaps

/-!
# How a match splits the values of its type

A match is well formed if all its type variables belong to the store, links lead nowhere back, every
type that is met is declared, and the patterns fit.  Then the check succeeds, and its findings come
from leaves that split the values of the matched type: values at one leaf are accepted by the same
branches.
-/

set_option autoImplicit false

namespace TypedMatch

def Row.ofEntry (entry : Branch × Nat) : Row := ⟨[], entry.2, entry.1.guarded⟩

namespace Match

def Scrutinizes (subject : Match) (env : Environment) (store : Store) (value : Value) : Prop :=
  value.Inhabits (env.outline store) (store.outline subject.scrutinee)

def accepting (subject : Match) (value : Value) : List (Branch × Nat) :=
  subject.branches.zipIdx.filter fun entry => entry.1.pattern.accepts value

/-- Whether a match may be checked: variables and links are in order, types are declared, and the
patterns fit.  The branches are no more than an array can hold. -/
structure WellFormed (subject : Match) (env : Environment) (store : Store) : Prop where
  acyclic : store.Acyclic
  typeOwned : store.Owns subject.scrutinee.leaves
  envOwned : env.OwnedBy store
  sound : (env.outline store).Sound (store.outline subject.scrutinee)
  fits : ∀ branch ∈ subject.branches,
    branch.pattern.Fits (env.outline store) (store.outline subject.scrutinee)
  short : subject.branches.length < 2 ^ 63

/-- Whether leaves split the values of the matched type, with one witness each. -/
structure SplitBy (subject : Match) (env : Environment) (store : Store) (leaves : List Leaf) :
    Prop where
  single : ∀ leaf ∈ leaves, ∃ witness : Witness, leaf.witnesses = [witness] ∧
    witness.Sketches (env.outline store) (store.outline subject.scrutinee)
  exact : ∀ leaf ∈ leaves, ∀ value, subject.Scrutinizes env store value → leaf.Covers [value] →
    leaf.rows = (subject.accepting value).map Row.ofEntry
  complete : ∀ value, subject.Scrutinizes env store value →
    ∃ leaf ∈ leaves, ∃ other, subject.Scrutinizes env store other ∧ value.Similar other ∧
      leaf.Covers [other] ∧ subject.accepting value = subject.accepting other
  disjoint : leaves.Pairwise fun leaf other => ∀ values, leaf.Covers values → ¬ other.Covers values
  inhabited : (env.outline store).Populated (store.outline subject.scrutinee) →
    ∀ leaf ∈ leaves, ∃ value, subject.Scrutinizes env store value ∧ leaf.Covers [value]

end Match

theorem Row.exists_ofBranches {env : Environment} {type : Ty Unit} {branches : List Branch}
    (fits : ∀ branch ∈ branches, branch.pattern.Fits env type) (index : Nat) :
    ∃ rows, ofBranches index branches = .ok rows ∧ rows.length = branches.length ∧
      (∀ row ∈ rows, row.Fits env [type]) ∧
      (∀ branch ∈ branches, ∃ row ∈ rows, ∀ value,
        row.accepts [value] = branch.pattern.accepts value) ∧
      ∀ value, handlers rows [value]
        = ((branches.zipIdx index).filter fun entry => entry.1.pattern.accepts value).map
            ofEntry := by
  induction branches generalizing index with
  | nil => exact ⟨[], rfl, rfl, List.forall_mem_nil _, List.forall_mem_nil _, fun _ => rfl⟩
  | cons branch rest inductionHypothesis =>
      obtain ⟨rows, made, sameLength, rowsFit, eachAccepts, accept⟩ :=
        inductionHypothesis (fun other among => fits other (.tail _ among)) (index + 1)
      obtain ⟨shape, shaped, shapeFits⟩ := Shape.exists_ofPattern (fits branch (.head _))
      let row : Row := ⟨[shape], index, branch.guarded⟩
      have rowAccepts : ∀ value, row.accepts [value] = branch.pattern.accepts value := by
        intro value
        rw [← Shape.accepts_ofPattern shaped value]
        exact Bool.and_true _
      refine ⟨row :: rows, ?_, ?_, ?_, ?_, ?_⟩
      · rw [ofBranches, shaped]
        simp only [bind, Except.bind, made]
        rfl
      · rw [List.length_cons, List.length_cons, sameLength]
      · exact List.forall_mem_cons.mpr ⟨⟨shapeFits, trivial⟩, rowsFit⟩
      · refine List.forall_mem_cons.mpr ⟨⟨row, .head _, rowAccepts⟩, ?_⟩
        intro other among
        obtain ⟨otherRow, inRows, otherAccepts⟩ := eachAccepts other among
        exact ⟨otherRow, .tail _ inRows, otherAccepts⟩
      · intro value
        rw [handlers_cons, accept, rowAccepts, List.zipIdx_cons, List.filter_cons]
        dsimp only
        split
        · rfl
        · rfl

namespace Match

variable {subject : Match} {env : Environment} {store : Store} {value : Value}

/-! ## Branches that accept a value -/

theorem forall_mem_zipIdx_iff {property : Branch → Prop} {branches : List Branch} :
    (∀ entry ∈ branches.zipIdx, property entry.1) ↔ ∀ branch ∈ branches, property branch := by
  have mapped := List.forall_mem_map (f := Prod.fst) (l := branches.zipIdx) (P := property)
  rw [List.zipIdx_map_fst] at mapped
  exact mapped.symm

theorem accepting_eq_nil_iff : subject.accepting value = [] ↔
    ∀ branch ∈ subject.branches, branch.pattern.accepts value = false := by
  rw [accepting, List.filter_eq_nil_iff, ← forall_mem_zipIdx_iff]
  simp only [Bool.not_eq_true]

theorem accepts_eq_of_accepting_eq {other : Value}
    (same : subject.accepting value = subject.accepting other) :
    ∀ branch ∈ subject.branches, branch.pattern.accepts value = branch.pattern.accepts other := by
  refine forall_mem_zipIdx_iff.mp ?_
  intro entry among
  have memIff : entry ∈ subject.accepting value ↔ entry ∈ subject.accepting other := by rw [same]
  rw [accepting, accepting, List.mem_filter, List.mem_filter] at memIff
  rw [Bool.eq_iff_iff]
  exact ⟨fun accepts => (memIff.mp ⟨among, accepts⟩).2,
    fun accepts => (memIff.mpr ⟨among, accepts⟩).2⟩

theorem ofRows_accepting_eq_unmatched :
    HoleKind.ofRows ((subject.accepting value).map Row.ofEntry) = some .unmatched ↔
      ∀ branch ∈ subject.branches, branch.pattern.accepts value = false := by
  rw [HoleKind.ofRows_eq_unmatched, List.map_eq_nil_iff, accepting_eq_nil_iff]

theorem ofRows_accepting_eq_guardedOnly :
    HoleKind.ofRows ((subject.accepting value).map Row.ofEntry) = some .guardedOnly ↔
      (∃ branch ∈ subject.branches, branch.pattern.accepts value = true) ∧
        ∀ branch ∈ subject.branches, branch.pattern.accepts value = true →
          branch.guarded = true := by
  rw [HoleKind.ofRows_eq_guardedOnly]
  refine and_congr ?_ ?_
  · rw [Ne, List.map_eq_nil_iff, accepting_eq_nil_iff]
    push Not
    simp only [ne_eq, Bool.not_eq_false]
  · rw [List.forall_mem_map, accepting, ← forall_mem_zipIdx_iff]
    simp only [List.mem_filter, and_imp]
    rfl

/-! ## The check of a well-formed match -/

/-- The check of a well-formed match succeeds, and leaves that split the values of its type are where
its findings come from. -/
theorem WellFormed.exists_leaves (wellFormed : subject.WellFormed env store) (level : Level) :
    ∃ leaves grown, subject.findings env level store = .ok (.ofLeaves leaves, grown) ∧
      subject.SplitBy env store leaves := by
  obtain ⟨rows, made, sameLength, rowsFit, eachAccepts, accept⟩ := Row.exists_ofBranches wellFormed.fits 0
  have admits : (env.outline store).Admits rows ([subject.scrutinee].map store.outline) :=
    { fits := rowsFit
      short := by
        rw [sameLength]
        exact wellFormed.short
      sound := List.forall_mem_singleton.mpr wellFormed.sound }
  obtain ⟨leaves, grown, runs, _, splits⟩ :=
    cover_splits wellFormed.acyclic wellFormed.envOwned level store (.refl store) rows
      [subject.scrutinee] (List.forall_mem_singleton.mpr wellFormed.typeOwned) admits.typed
  refine ⟨leaves, grown, ?_, ?_⟩
  · rw [findings, made]
    exact runs
  · exact
      { single := by
          intro leaf among
          have sketches := splits.sketches admits leaf among
          obtain ⟨witness, single⟩ := List.length_eq_one_iff.mp sketches.length_eq
          rw [single] at sketches
          exact ⟨witness, single, sketches.1⟩
        exact := by
          intro leaf among value scrutinized covers
          rw [splits.rows_eq admits leaf among [value] ⟨scrutinized, trivial⟩ covers, accept]
          rfl
        complete := by
          intro value scrutinized
          obtain ⟨leaf, among, others, inhabit, similar, covers, same⟩ :=
            splits.exists_leaf admits [value] ⟨scrutinized, trivial⟩
          obtain ⟨other, rfl⟩ := List.length_eq_one_iff.mp inhabit.length_eq
          refine ⟨leaf, among, other, inhabit.1, similar.1, covers, List.filter_congr ?_⟩
          intro entry inEntries
          obtain ⟨row, inRows, rowAccepts⟩ := eachAccepts entry.1 (List.fst_mem_of_mem_zipIdx inEntries)
          rw [← rowAccepts, same row inRows, rowAccepts]
        disjoint := splits.disjoint admits
        inhabited := by
          intro populated leaf among
          obtain ⟨values, inhabit, covers⟩ :=
            splits.exists_covered admits (List.forall_mem_singleton.mpr populated) leaf among
          obtain ⟨value, rfl⟩ := List.length_eq_one_iff.mp inhabit.length_eq
          exact ⟨value, inhabit.1, covers⟩ }

/-! ## A match over queues -/

def queueCon : TyCon := ⟨0, "queue"⟩

def queueEnvironment : Environment where
  constructors? con :=
    if con = queueCon then
      some [⟨"Empty", ⟨[⟨0⟩], .unit⟩⟩,
        ⟨"Front", ⟨[⟨0⟩], .product [.var (.bound ⟨0⟩), .data queueCon [.var (.bound ⟨0⟩)]]⟩⟩]
    else none
  abbreviates _ := false
  body? _ := none
  bodies := []
  body?_mem := by
    intro con template found
    cases found

/-- Queues of integers that begin with zero are taken under a guard, and those of one item for any
item, which leaves nothing for the last branch. -/
def queueMatch : Match where
  scrutinee := .data queueCon [.base .int]
  branches :=
    [⟨.ctor "Front" (.ofTuple [.int 0, .wildcard]), true⟩,
      ⟨.ctor "Front" (.ofTuple [.var "item", .constant "Empty"]), false⟩,
      ⟨.ctor "Front" (.ofTuple [.int 5, .constant "Empty"]), false⟩]
  span := ⟨0, 80⟩

def queueOutline : Environment := queueEnvironment.outline .empty

def queueType : Ty Unit := .data queueCon [.base .int]

theorem queueOutline_root {type root : Ty Unit} : queueOutline.Root type root ↔ root = type := by
  have notAlias : queueOutline.aliasAt? type = none := by
    cases type with
    | data con args => exact Environment.aliasAt?_data_eq_none.mpr rfl
    | _ => rfl
  constructor
  · intro stands
    exact stands.eq_of_not_alias notAlias
  · rintro rfl
    exact Environment.root_self notAlias

theorem queueOutline_offers {payload : Ty Unit} {name : String} :
    queueOutline.Offers queueType name payload ↔ (name = "Empty" ∧ payload = .unit) ∨
      (name = "Front" ∧ payload = .product [.base .int, queueType]) := by
  constructor
  · rintro ⟨con, args, constructors, constructor, stands, listed, among, rfl, rfl⟩
    cases queueOutline_root.mp stands
    cases listed
    rcases List.mem_pair.mp among with rfl | rfl
    · exact .inl ⟨rfl, rfl⟩
    · exact .inr ⟨rfl, rfl⟩
  · rintro (⟨rfl, rfl⟩ | ⟨rfl, rfl⟩)
    · exact ⟨_, _, _, _, queueOutline_root.mpr rfl, rfl, .head _, rfl, rfl⟩
    · exact ⟨_, _, _, _, queueOutline_root.mpr rfl, rfl, .tail _ (.head _), rfl, rfl⟩

def queueTypes : List (Ty Unit) :=
  [queueType, .unit, .product [.base .int, queueType], .base .int]

theorem mem_queueTypes {found : Ty Unit} (reaches : queueOutline.Reaches queueType found) :
    found ∈ queueTypes := by
  induction reaches with
  | self => exact .head _
  | root _ stands inductionHypothesis =>
      rw [queueOutline_root.mp stands]
      exact inductionHypothesis
  | element _ stands inductionHypothesis =>
      cases queueOutline_root.mp stands
      simp [queueTypes, queueType, Ty.unit] at inductionHypothesis
  | @component _ component components _ stands among inductionHypothesis =>
      cases queueOutline_root.mp stands
      have isPair : components = [.base .int, queueType] := by
        simpa [queueTypes, queueType, Ty.unit] using inductionHypothesis
      rw [isPair] at among
      rcases List.mem_pair.mp among with rfl | rfl
      · simp [queueTypes]
      · exact .head _
  | @payload found _ _ _ offered inductionHypothesis =>
      obtain ⟨con, args, _, _, stands, _⟩ := id offered
      cases queueOutline_root.mp stands
      have isQueue : .data con args = queueType := by
        simpa [queueTypes, queueType, Ty.unit] using inductionHypothesis
      rw [isQueue] at offered
      rcases queueOutline_offers.mp offered with ⟨_, rfl⟩ | ⟨_, rfl⟩
      · simp [queueTypes]
      · simp [queueTypes]

theorem eq_queueType_of_data {con : TyCon} {args : List (Ty Unit)}
    (reaches : queueOutline.Reaches queueType (.data con args)) : .data con args = queueType := by
  simpa [queueTypes, queueType, Ty.unit] using mem_queueTypes reaches

theorem queueMatch_fits {env : Environment} (offersEmpty : env.Offers queueType "Empty" .unit)
    (offersFront : env.Offers queueType "Front" (.product [.base .int, queueType]))
    (rooted : ∀ type ∈ queueTypes, env.Root type type) :
    ∀ branch ∈ queueMatch.branches, branch.pattern.Fits env queueType := by
  have isInt {value : Int} (word : IsWord value) : Pattern.Fits env (.int value) (.base .int) :=
    ⟨word, rooted _ (by simp [queueTypes])⟩
  have isEmpty : Pattern.Fits env (.constant "Empty") queueType :=
    ⟨_, offersEmpty, rooted _ (by simp [queueTypes])⟩
  have isFront {first rest : Pattern} (firstFits : first.Fits env (.base .int))
      (restFits : rest.Fits env queueType) :
      Pattern.Fits env (.ctor "Front" (.ofTuple [first, rest])) queueType :=
    ⟨_, offersFront, _, _, rooted _ (by simp [queueTypes]), firstFits, restFits, trivial⟩
  refine List.forall_mem_cons.mpr ⟨?_, List.forall_mem_cons.mpr ⟨?_,
    List.forall_mem_singleton.mpr ?_⟩⟩
  · exact isFront (isInt (by decide)) trivial
  · exact isFront trivial isEmpty
  · exact isFront (isInt (by decide)) isEmpty

theorem queueMatch_wellFormed : queueMatch.WellFormed queueEnvironment .empty where
  acyclic := ⟨fun _ => 0, fun stored => nomatch stored⟩
  typeOwned := Store.owns_nil
  envOwned :=
    { bodies := fun found => nomatch found
      payloads := by
        intro con constructors listed constructor among
        simp only [queueEnvironment, Option.ite_none_right_eq_some] at listed
        cases listed.2
        rcases List.mem_pair.mp among with rfl | rfl
        · exact Store.owns_nil
        · exact Store.owns_nil }
  sound := by
    intro found reaches
    refine ⟨found, queueOutline_root.mpr rfl, ?_⟩
    rintro con args rfl
    cases eq_queueType_of_data reaches
    refine ⟨_, rfl, by decide, ?_⟩
    intro constructor among
    rcases List.mem_pair.mp among with rfl | rfl
    · rfl
    · rfl
  fits := queueMatch_fits (queueOutline_offers.mpr (.inl ⟨rfl, rfl⟩))
    (queueOutline_offers.mpr (.inr ⟨rfl, rfl⟩)) fun _ _ => queueOutline_root.mpr rfl
  short := by decide

def queueOf : List Int → Value
  | [] => .ctor "Empty" .unit
  | item :: rest => .ctor "Front" (.tuple [.int item, queueOf rest])

theorem scrutinizes_queueOf : ∀ {items : List Int}, (∀ item ∈ items, IsWord item) →
    queueMatch.Scrutinizes queueEnvironment .empty (queueOf items)
  | [], _ => ⟨.unit, queueOutline_offers.mpr (.inl ⟨rfl, rfl⟩), queueOutline_root.mpr rfl⟩
  | item :: _, words => ⟨_, queueOutline_offers.mpr (.inr ⟨rfl, rfl⟩), _,
      queueOutline_root.mpr rfl, ⟨words item (.head _), queueOutline_root.mpr rfl⟩,
      scrutinizes_queueOf fun other among => words other (.tail _ among), trivial⟩

theorem queueMatch_populated :
    (queueEnvironment.outline .empty).Populated (Store.empty.outline queueMatch.scrutinee) := by
  intro found reaches
  have noItem : Value.Inhabits queueOutline (queueOf []) queueType :=
    scrutinizes_queueOf (List.forall_mem_nil _)
  have zero : Value.Inhabits queueOutline (.int 0) (.base .int) :=
    ⟨by decide, queueOutline_root.mpr rfl⟩
  have among := mem_queueTypes reaches
  simp only [queueTypes, List.mem_cons, List.not_mem_nil, or_false] at among
  rcases among with rfl | rfl | rfl | rfl
  · exact ⟨_, noItem⟩
  · exact ⟨.unit, queueOutline_root.mpr rfl⟩
  · exact ⟨.tuple [.int 0, queueOf []], _, queueOutline_root.mpr rfl, zero, noItem, trivial⟩
  · exact ⟨_, zero⟩

end Match

end TypedMatch
