import TypedMatch.Coverage.Cover
import TypedMatch.Proofs.Coverage.TypeHeads

/-!
# How rows split values

A way through the slots ends in a leaf, with one witness for every slot and the rows that are left.
`Environment.Splits` says which leaves rows come to, slot by slot, when the slots have given types: it
is what a check does to its rows, without the store.  `Environment.Admits` is the invariant on the way:
the rows fit the types of the slots, and every type that is met is declared.
-/

set_option autoImplicit false

namespace TypedMatch

/-! ## Rows against values -/

namespace Row

def accepts (row : Row) (values : List Value) : Bool := Shape.acceptsList row.shapes values

def Fits (env : Environment) (row : Row) (slots : List (Ty Unit)) : Prop :=
  Shape.FitsList env row.shapes slots

def spent (row : Row) : Row := { row with shapes := [] }

end Row

/-- The rows that accept values, in order and with nothing left to ask for. -/
def handlers (rows : List Row) (values : List Value) : List Row :=
  (rows.filter fun row => row.accepts values).map Row.spent

/-- Whether rows may be checked against slots of given types: the rows fit, and all types are
declared. -/
structure Environment.Typed (env : Environment) (rows : List Row) (slots : List (Ty Unit)) :
    Prop where
  fits : ∀ row ∈ rows, row.Fits env slots
  sound : ∀ slot ∈ slots, env.Sound slot

/-- Whether rows may be checked against slots of given types, and are no more than an array can
hold. -/
structure Environment.Admits (env : Environment) (rows : List Row) (slots : List (Ty Unit)) :
    Prop where
  fits : ∀ row ∈ rows, row.Fits env slots
  short : rows.length < 2 ^ 63
  sound : ∀ slot ∈ slots, env.Sound slot

variable {env : Environment} {rows : List Row} {row : Row} {slot : Ty Unit} {rest : List (Ty Unit)}
  {head : Head Unit} {value : Value} {parts values : List Value}

namespace Row

theorem Fits.exists_shapes (fits : row.Fits env (slot :: rest)) :
    ∃ first shapes, row.shapes = first :: shapes ∧ first.Fits env slot ∧
      Shape.FitsList env shapes rest := by
  obtain ⟨shapes, branch, guarded⟩ := row
  cases shapes with
  | nil => exact fits.elim
  | cons first shapes => exact ⟨first, shapes, rfl, fits.1, fits.2⟩

theorem Fits.tail (fits : row.Fits env (slot :: rest)) : row.tail.Fits env rest := by
  obtain ⟨first, shapes, isCons, _, shapesFit⟩ := fits.exists_shapes
  rw [Fits, Row.tail, isCons]
  exact shapesFit

theorem accepts_tail (fits : row.Fits env (slot :: rest)) (skips : row.skips) (value : Value)
    (values : List Value) : row.tail.accepts values = row.accepts (value :: values) := by
  obtain ⟨first, shapes, isCons, _, _⟩ := fits.exists_shapes
  rw [Row.skips, isCons] at skips
  cases first with
  | wildcard => simp [accepts, tail, isCons, Shape.acceptsList, Shape.accepts]
  | _ => cases skips

theorem spent_under {kept : Row} (keeps : row.under head = some kept) : kept.spent = row.spent := by
  obtain ⟨shapes, branch, guarded⟩ := row
  cases shapes with
  | nil => cases keeps
  | cons first shapes =>
      obtain ⟨_, _, rfl⟩ := Option.map_eq_some_iff.mp keeps
      rfl

theorem mem_column {first : Shape} {shapes : List Shape} (among : row ∈ rows)
    (isCons : row.shapes = first :: shapes) : first ∈ column rows :=
  List.mem_filterMap.mpr ⟨row, among, by rw [isCons, List.head?_cons]⟩

end Row

theorem handlers_nil (values : List Value) : handlers [] values = [] := rfl

theorem handlers_cons (row : Row) (rows : List Row) (values : List Value) :
    handlers (row :: rows) values
      = (if row.accepts values then [row.spent] else []) ++ handlers rows values := by
  rw [handlers, List.filter_cons]
  split
  · rfl
  · rfl

theorem handlers_append (rows others : List Row) (values : List Value) :
    handlers (rows ++ others) values = handlers rows values ++ handlers others values := by
  rw [handlers, List.filter_append, List.map_append]
  rfl

namespace Environment.Typed

theorem columnFits (typed : env.Typed rows (slot :: rest)) :
    ∀ shape ∈ column rows, shape.Fits env slot := by
  intro shape among
  obtain ⟨row, inRows, isFirst⟩ := List.mem_filterMap.mp among
  obtain ⟨first, shapes, isCons, firstFits, _⟩ := (typed.fits row inRows).exists_shapes
  rw [isCons] at isFirst
  cases isFirst
  exact firstFits

theorem exists_asking (typed : env.Typed rows (slot :: rest)) (asks : rows.all Row.skips = false) :
    ∃ shape ∈ column rows, shape.isBlank = false := by
  obtain ⟨row, inRows, rowAsks⟩ := List.all_eq_false.mp asks
  obtain ⟨first, shapes, isCons, _, _⟩ := (typed.fits row inRows).exists_shapes
  rw [Row.skips, isCons, Bool.not_eq_true] at rowAsks
  exact ⟨first, Row.mem_column inRows isCons, rowAsks⟩

theorem slot_sound (typed : env.Typed rows (slot :: rest)) : env.Sound slot :=
  typed.sound slot (.head _)

theorem tail (typed : env.Typed rows (slot :: rest)) : env.Typed (rows.map Row.tail) rest where
  fits := by
    intro row among
    obtain ⟨original, inRows, rfl⟩ := List.mem_map.mp among
    exact (typed.fits original inRows).tail
  sound := fun other among => typed.sound other (.tail _ among)

theorem kept (typed : env.Typed rows (slot :: rest))
    (headOf : env.HeadOf (column rows) slot head) :
    env.Typed (keptRows head rows) (head.slots ++ rest) where
  fits := by
    intro row among
    obtain ⟨original, inRows, keeps⟩ := List.mem_filterMap.mp among
    obtain ⟨first, shapes, isCons, firstFits, shapesFit⟩ := (typed.fits original inRows).exists_shapes
    rw [Row.under, isCons] at keeps
    obtain ⟨demanded, demands, rfl⟩ := Option.map_eq_some_iff.mp keeps
    exact (headOf.fits_demands typed.slot_sound.rootDeclared firstFits demands).append shapesFit
  sound := by
    intro other among
    rcases List.mem_append.mp among with behind | inRest
    · exact typed.slot_sound.of_reaches (headOf.reaches behind)
    · exact typed.sound other (.tail _ inRest)

end Environment.Typed

namespace Environment.Admits

theorem typed {slots : List (Ty Unit)} (admits : env.Admits rows slots) : env.Typed rows slots :=
  ⟨admits.fits, admits.sound⟩

theorem columnFits (admits : env.Admits rows (slot :: rest)) :
    ∀ shape ∈ column rows, shape.Fits env slot :=
  admits.typed.columnFits

theorem column_short {slots : List (Ty Unit)} (admits : env.Admits rows slots) :
    (column rows).length < 2 ^ 63 :=
  Nat.lt_of_le_of_lt (List.length_filterMap_le _ _) admits.short

theorem slot_sound (admits : env.Admits rows (slot :: rest)) : env.Sound slot :=
  admits.typed.slot_sound

theorem tail (admits : env.Admits rows (slot :: rest)) : env.Admits (rows.map Row.tail) rest where
  fits := admits.typed.tail.fits
  short := by
    rw [List.length_map]
    exact admits.short
  sound := admits.typed.tail.sound

theorem kept (admits : env.Admits rows (slot :: rest))
    (headOf : env.HeadOf (column rows) slot head) :
    env.Admits (keptRows head rows) (head.slots ++ rest) where
  fits := (admits.typed.kept headOf).fits
  short := Nat.lt_of_le_of_lt (List.length_filterMap_le _ _) admits.short
  sound := (admits.typed.kept headOf).sound

theorem accepts_eq (admits : env.Admits rows (slot :: rest))
    (headOf : env.HeadOf (column rows) slot head) (inhabits : value.Inhabits env slot)
    (opens : head.Opens value parts) (among : row ∈ rows) (values : List Value) :
    row.accepts (value :: values)
      = (row.under head).any fun kept => kept.accepts (parts ++ values) := by
  obtain ⟨first, shapes, isCons, firstFits, _⟩ := (admits.fits row among).exists_shapes
  have firstAccepts := headOf.accepts_eq admits.slot_sound.rootDeclared
    (Row.mem_column among isCons) firstFits inhabits opens
  rw [Row.accepts, isCons, Shape.acceptsList, firstAccepts, Row.under, isCons]
  cases demands : head.demands first with
  | none => simp only [demands, Option.map_none, Option.any_none, Bool.false_and]
  | some demanded =>
      have sameLength : demanded.length = parts.length :=
        (Head.length_demands demands).trans opens.length_eq.symm
      simp only [demands, Option.map_some, Option.any_some, Row.accepts]
      exact (Shape.acceptsList_append sameLength shapes).symm

theorem handlers_tail (admits : env.Admits rows (slot :: rest)) (skips : rows.all Row.skips)
    (value : Value) (values : List Value) :
    handlers (rows.map Row.tail) values = handlers rows (value :: values) := by
  have accepts : ∀ row ∈ rows, row.tail.accepts values = row.accepts (value :: values) :=
    fun row among => Row.accepts_tail (admits.fits row among) (List.all_eq_true.mp skips row among)
      value values
  have sameRows : rows.filter ((fun row => row.accepts values) ∘ Row.tail)
      = rows.filter fun row => row.accepts (value :: values) :=
    List.filter_congr accepts
  rw [handlers, List.filter_map, List.map_map, sameRows]
  rfl

theorem handlers_kept (admits : env.Admits rows (slot :: rest))
    (headOf : env.HeadOf (column rows) slot head) (inhabits : value.Inhabits env slot)
    (opens : head.Opens value parts) (values : List Value) :
    handlers (keptRows head rows) (parts ++ values) = handlers rows (value :: values) := by
  have accepts : ∀ row ∈ rows, row.accepts (value :: values)
      = (row.under head).any fun kept => kept.accepts (parts ++ values) :=
    fun row among => admits.accepts_eq headOf inhabits opens among values
  clear admits headOf
  induction rows with
  | nil => rfl
  | cons row rows inductionHypothesis =>
      have restSame := inductionHypothesis fun other among => accepts other (.tail _ among)
      have rowAccepts := accepts row (.head _)
      rw [keptRows_cons, handlers_append, restSame, handlers_cons, rowAccepts]
      cases keeps : row.under head with
      | none => rfl
      | some kept =>
          rw [Option.toList_some, handlers_cons, Option.any_some, Row.spent_under keeps, handlers_nil,
            List.append_nil]

end Environment.Admits

/-! ## Leaves -/

/-- Where a way through the slots ends: a witness for every slot, and the rows that are left. -/
structure Leaf where
  witnesses : List Witness
  rows : List Row
deriving Repr, Inhabited

namespace Leaf

def skip (leaf : Leaf) : Leaf := { leaf with witnesses := .wildcard :: leaf.witnesses }

def fold (head : Head Unit) (leaf : Leaf) : Leaf :=
  { leaf with
    witnesses :=
      head.rebuild (leaf.witnesses.take head.arity) :: leaf.witnesses.drop head.arity }

def Covers (leaf : Leaf) (values : List Value) : Prop :=
  Witness.coversList leaf.witnesses values = true

variable {leaf : Leaf}

theorem covers_skip : leaf.skip.Covers (value :: values) ↔ leaf.Covers values := by
  rw [Covers, skip, Witness.coversList, Witness.covers, Bool.true_and, Covers]

theorem exists_cons_of_covers_skip (covers : leaf.skip.Covers values) :
    ∃ value others, values = value :: others ∧ leaf.Covers others := by
  cases values with
  | nil => cases covers
  | cons value others => exact ⟨value, others, rfl, covers_skip.mp covers⟩

/-- Values that a folded leaf stands for have the head in front, and with its parts instead they are
values that the leaf stands for. -/
theorem exists_opens_of_covers_fold (wide : head.arity ≤ leaf.witnesses.length)
    (covers : (leaf.fold head).Covers values) :
    ∃ value others parts, values = value :: others ∧ head.Opens value parts ∧
      leaf.Covers (parts ++ others) := by
  cases values with
  | nil => cases covers
  | cons value others =>
      rw [Covers, fold, Witness.coversList, Bool.and_eq_true] at covers
      have complete : (leaf.witnesses.take head.arity).length = head.arity :=
        List.length_take_of_le wide
      obtain ⟨parts, opens, partsCovered⟩ :=
        Head.exists_opens_of_covers_rebuild complete covers.1
      refine ⟨value, others, parts, rfl, opens, ?_⟩
      have sameLength := complete.trans opens.length_eq.symm
      rw [Covers, ← List.take_append_drop head.arity leaf.witnesses,
        Witness.coversList_append sameLength, partsCovered, covers.2, Bool.and_self]

theorem covers_fold_assemble (wide : head.arity ≤ leaf.witnesses.length)
    (complete : parts.length = head.arity) (covers : leaf.Covers (parts ++ values)) :
    (leaf.fold head).Covers (head.assemble parts :: values) := by
  have taken : (leaf.witnesses.take head.arity).length = head.arity := List.length_take_of_le wide
  have sameLength := taken.trans complete.symm
  rw [Covers, ← List.take_append_drop head.arity leaf.witnesses,
    Witness.coversList_append sameLength, Bool.and_eq_true] at covers
  rw [Covers, fold, Witness.coversList, Head.covers_assemble taken covers.1, covers.2,
    Bool.and_self]

end Leaf

/-! ## From rows to leaves -/

/-- Whether heads are those of a type's values, each of them once. -/
structure Environment.Enumerates (env : Environment) (column : List Shape) (type : Ty Unit)
    (heads : List (Head Unit)) : Prop where
  mem_iff : ∀ head, head ∈ heads ↔ env.HeadOf column type head
  distinct : heads.Nodup

theorem Environment.Enumerates.exists_family {column : List Shape}
    {families : List (Head Unit × List Leaf)} {leaf : Leaf}
    (enumerates : env.Enumerates column slot (families.map Prod.fst))
    (among : leaf ∈ families.flatMap fun family => family.2.map (Leaf.fold family.1)) :
    ∃ family ∈ families, ∃ inner ∈ family.2, inner.fold family.1 = leaf ∧
      env.HeadOf column slot family.1 := by
  obtain ⟨family, inFamilies, inFolded⟩ := List.mem_flatMap.mp among
  obtain ⟨inner, inInner, isLeaf⟩ := List.mem_map.mp inFolded
  have headOf := (enumerates.mem_iff family.1).mp (List.mem_map_of_mem inFamilies)
  exact ⟨family, inFamilies, inner, inInner, isLeaf, headOf⟩

/-- The leaves that rows come to when they are checked against slots of given types. -/
inductive Environment.Splits (env : Environment) :
    List Row → List (Ty Unit) → List Leaf → Prop where
  /-- Where no slot is left, so are the rows that accept every value. -/
  | done (rows : List Row) : Splits env rows [] [⟨[], rows⟩]
  /-- Where no row is left, nothing is asked of the slots any more. -/
  | spent (slots : List (Ty Unit)) : Splits env [] slots [⟨slots.map fun _ => .wildcard, []⟩]
  | skip {rows : List Row} {slot : Ty Unit} {rest : List (Ty Unit)} {leaves : List Leaf} :
      rows.all Row.skips → Splits env (rows.map Row.tail) rest leaves →
      Splits env rows (slot :: rest) (leaves.map Leaf.skip)
  | split {rows : List Row} {slot : Ty Unit} {rest : List (Ty Unit)}
      {families : List (Head Unit × List Leaf)} :
      rows.all Row.skips = false →
      env.Enumerates (column rows) slot (families.map Prod.fst) →
      (∀ family ∈ families,
        Splits env (keptRows family.1 rows) (family.1.slots ++ rest) family.2) →
      Splits env rows (slot :: rest)
        (families.flatMap fun family => family.2.map (Leaf.fold family.1))

end TypedMatch
