import TypedMatch.Coverage.Head
import TypedMatch.Proofs.Value.Typing

/-!
# Opening values

A head opens a value if the value has that head, and then what is left of the value are its parts.
`Head.assemble` goes the other way and puts parts together.  What a head does with shapes and with
witnesses agrees with this: a shape accepts a value if it accepts, by what it demands, the parts, and
a witness that has been rebuilt covers a value only if the old witnesses cover the parts.
-/

set_option autoImplicit false

namespace TypedMatch

/-! ## Literals that are not listed -/

section Listed

variable {Item : Type}

theorem nodup_eraseDups [BEq Item] [LawfulBEq Item] (items : List Item) :
    items.eraseDups.Nodup := by
  cases items with
  | nil => exact List.nodup_nil
  | cons item rest =>
      rw [List.eraseDups_cons]
      refine List.nodup_cons.mpr ⟨?_, ?_⟩
      · rw [List.mem_eraseDups, List.mem_filter]
        rintro ⟨_, different⟩
        simp at different
      · exact nodup_eraseDups (rest.filter fun other => !other == item)
termination_by items.length
decreasing_by
  have shorter := List.length_filter_le (fun other => !other == item) rest
  rw [List.length_cons]
  omega

theorem length_eraseDups_le [BEq Item] [LawfulBEq Item] (items : List Item) :
    items.eraseDups.length ≤ items.length :=
  ((nodup_eraseDups items).subperm fun _ among => List.mem_eraseDups.mp among).length_le

theorem eraseDups_of_nodup [BEq Item] [LawfulBEq Item] {items : List Item} (distinct : items.Nodup) :
    items.eraseDups = items := by
  induction items with
  | nil => rfl
  | cons item rest inductionHypothesis =>
      obtain ⟨notAmong, restDistinct⟩ := List.nodup_cons.mp distinct
      have keepsAll : (rest.filter fun other => !other == item) = rest := by
        apply List.filter_eq_self.mpr
        intro other among
        have different : other ≠ item := fun same => notAmong (same ▸ among)
        simpa using different
      rw [List.eraseDups_cons, keepsAll, inductionHypothesis restDistinct]

theorem exists_le_length_not_mem {candidate : Nat → Item}
    (injective : Function.Injective candidate) (items : List Item) :
    ∃ number ≤ items.length, candidate number ∉ items := by
  by_contra allListed
  push Not at allListed
  have distinct : ((List.range (items.length + 1)).map candidate).Nodup :=
    List.nodup_range.map injective
  have subset : (List.range (items.length + 1)).map candidate ⊆ items := by
    intro item among
    obtain ⟨number, inRange, rfl⟩ := List.mem_map.mp among
    exact allListed number (Nat.le_of_lt_succ (List.mem_range.mp inRange))
  have tooLong := (distinct.subperm subset).length_le
  rw [List.length_map, List.length_range] at tooLong
  omega

end Listed

theorem leastFree_spec (taken : Nat → Bool) {bound : Nat}
    (free : ∃ number ≤ bound, taken number = false) :
    taken (leastFree taken bound) = false ∧ leastFree taken bound ≤ bound := by
  obtain ⟨number, low, isFree⟩ := free
  cases found : (List.range (bound + 1)).find? fun candidate => !taken candidate with
  | none =>
      have taken := List.find?_eq_none.mp found number (List.mem_range.mpr (by omega))
      simp [isFree] at taken
  | some first =>
      have isFirst : leastFree taken bound = first := by rw [leastFree, found, Option.getD_some]
      have satisfies := List.find?_some found
      have inRange := List.mem_range.mp (List.mem_of_find?_eq_some found)
      rw [isFirst]
      exact ⟨by simpa using satisfies, by omega⟩

theorem taken_of_lt_leastFree {taken : Nat → Bool} {bound number : Nat}
    (below : number < leastFree taken bound) : taken number = true := by
  rw [leastFree] at below
  cases found : (List.range (bound + 1)).find? fun candidate => !taken candidate with
  | none =>
      rw [found] at below
      exact absurd below (Nat.not_lt_zero number)
  | some first =>
      rw [found] at below
      obtain ⟨_, _, earlier⟩ := List.find?_range_eq_some.mp found
      simpa using earlier number below

theorem sampleInt_spec (listed : List Int) :
    sampleInt listed ∉ listed ∧ 0 ≤ sampleInt listed ∧ sampleInt listed ≤ listed.length := by
  obtain ⟨number, low, unlisted⟩ :=
    exists_le_length_not_mem (fun _ _ same => Int.ofNat.inj same : Function.Injective Int.ofNat)
      listed
  have notTaken : listed.contains (number : Int) = false := by simpa using unlisted
  obtain ⟨isFree, bounded⟩ :=
    leastFree_spec (fun candidate => listed.contains (candidate : Int))
      ⟨number, low, notTaken⟩
  refine ⟨?_, Int.natCast_nonneg _, Int.ofNat_le.mpr bounded⟩
  intro isListed
  have taken : listed.contains (sampleInt listed) = true := List.contains_iff_mem.mpr isListed
  exact Bool.noConfusion (taken.symm.trans isFree)

theorem crosses_injective : Function.Injective crosses := by
  intro count other same
  have sameLength := congrArg List.length (String.ofList_injective same)
  simpa using sameLength

theorem sampleStr_not_mem (listed : List String) : sampleStr listed ∉ listed := by
  obtain ⟨number, low, unlisted⟩ := exists_le_length_not_mem crosses_injective listed
  have notTaken : listed.contains (crosses number) = false := by simpa using unlisted
  obtain ⟨isFree, _⟩ :=
    leastFree_spec (fun candidate => listed.contains (crosses candidate))
      ⟨number, low, notTaken⟩
  intro isListed
  have taken : listed.contains (sampleStr listed) = true := List.contains_iff_mem.mpr isListed
  exact Bool.noConfusion (taken.symm.trans isFree)

namespace Head

variable {Var : Type}

/-- Whether a value has a head, and which parts are behind it. -/
@[mk_iff]
inductive Opens : Head Var → Value → List Value → Prop where
  | unit : Opens .unit .unit []
  | bool (value : Bool) : Opens (.bool value) (.bool value) []
  | int (value : Int) : Opens (.int value) (.int value) []
  | str (value : String) : Opens (.str value) (.str value) []
  | intBesides {listed : List Int} {value : Int} : value ∉ listed →
      Opens (.intBesides listed) (.int value) []
  | strBesides {listed : List String} {value : String} : value ∉ listed →
      Opens (.strBesides listed) (.str value) []
  | nil : Opens .nil .nil []
  | cons (element : Ty Var) (first rest : Value) :
      Opens (.cons element) (.cons first rest) [first, rest]
  | tuple {components : List (Ty Var)} {values : List Value} : values.length = components.length →
      Opens (.tuple components) (.tuple values) values
  | constant (name : String) (payload : Value) : Opens (.constant name) (.ctor name payload) []
  | applied (name : String) (type : Ty Var) (payload : Value) :
      Opens (.applied name type) (.ctor name payload) [payload]

/-- A value with a head and with these parts behind it.  Behind a constructor that takes no slot is
the unit value. -/
def assemble : Head Var → List Value → Value
  | unit, _ => .unit
  | bool value, _ => .bool value
  | int value, _ => .int value
  | str value, _ => .str value
  | intBesides listed, _ => .int (sampleInt listed)
  | strBesides listed, _ => .str (sampleStr listed)
  | nil, _ => .nil
  | cons _, [first, rest] => .cons first rest
  | tuple _, parts => .tuple parts
  | constant name, _ => .ctor name .unit
  | applied name _, [payload] => .ctor name payload
  | _, _ => .sealed 0

variable {head : Head Var} {value : Value} {parts others : List Value}

theorem Opens.length_eq (opens : head.Opens value parts) : parts.length = head.arity := by
  cases opens with
  | tuple sameLength => exact sameLength
  | _ => rfl

theorem Opens.unique (opens : head.Opens value parts) (otherwise : head.Opens value others) :
    parts = others := by
  cases opens <;> cases otherwise <;> rfl

theorem opens_assemble (complete : parts.length = head.arity) :
    head.Opens (head.assemble parts) parts := by
  cases head with
  | cons element =>
      match parts, complete with
      | [first, rest], _ => exact .cons element first rest
  | tuple components => exact .tuple complete
  | applied name payload =>
      match parts, complete with
      | [value], _ => exact .applied name payload value
  | _ =>
      rw [List.length_eq_zero_iff.mp complete]
      constructor
      try first | exact (sampleInt_spec _).1 | exact sampleStr_not_mem _

/-! ## Shapes -/

/-- Whether a head does not take a shape for one of the others that it stands for, or for a constructor
without payload when the shape looks at the payload. -/
def Discerns (head : Head Var) (shape : Shape) (value : Value) : Prop :=
  match head, shape, value with
  | intBesides listed, .int literal, _ => literal ∈ listed
  | strBesides listed, .str literal, _ => literal ∈ listed
  | constant name, .ctor tag inner, .ctor _ payload => name = tag → inner.accepts payload = true
  | _, _, _ => True

private theorem any_ite {Item : Type} [DecidableEq Item] [BEq Item] [LawfulBEq Item]
    (found expected : Item) (demanded : List Shape) (test : List Shape → Bool) :
    (if found = expected then some demanded else none).any test
      = (expected == found && test demanded) := by
  by_cases same : found = expected
  · simp [same]
  · have different : (expected == found) = false := beq_eq_false_iff_ne.mpr (Ne.symm same)
    simp [same, different]

theorem Opens.accepts_eq (opens : head.Opens value parts) {shape : Shape}
    (discerns : head.Discerns shape value) :
    shape.accepts value
      = (head.demands shape).any fun demanded => Shape.acceptsList demanded parts := by
  cases shape with
  | wildcard =>
      rw [demands, Option.any_some, ← opens.length_eq, Shape.acceptsList_replicate_wildcard,
        Shape.accepts]
  | int literal =>
      cases opens with
      | @intBesides listed found unlisted =>
          have different : literal ≠ found := by
            rintro rfl
            exact unlisted discerns
          simpa [Shape.accepts, demands] using different
      | _ => simp [Shape.accepts, demands, any_ite, Shape.acceptsList]
  | str literal =>
      cases opens with
      | @strBesides listed found unlisted =>
          have different : literal ≠ found := by
            rintro rfl
            exact unlisted discerns
          simpa [Shape.accepts, demands] using different
      | _ => simp [Shape.accepts, demands, any_ite, Shape.acceptsList]
  | ctor tag inner =>
      cases opens with
      | constant name payload =>
          by_cases same : name = tag
          · have accepted : inner.accepts payload = true := discerns same
            simp [Shape.accepts, demands, same, accepted, Shape.acceptsList]
          · have different : tag ≠ name := fun sameName => same sameName.symm
            simp [Shape.accepts, demands, same, different]
      | _ => simp [Shape.accepts, demands, any_ite, Shape.acceptsList]
  | tuple shapes =>
      cases opens with
      | @tuple components _ sameLength =>
          rw [demands, any_ite, Shape.accepts]
          cases accepted : Shape.acceptsList shapes parts with
          | false => rw [Bool.and_false]
          | true => simp [← sameLength, Shape.acceptsList_length_eq accepted]
      | _ => simp [Shape.accepts, demands]
  | _ => cases opens <;> simp [Shape.accepts, demands, any_ite, Shape.acceptsList]

/-! ## Witnesses -/

/-- A rebuilt witness without parts covers one value, unless it is that of a constructor, whose payload
it leaves open. -/
theorem eq_assemble_of_covers_rebuild (noParts : head.arity = 0)
    (notConstant : ∀ name, head ≠ .constant name)
    (covers : (head.rebuild []).covers value = true) : value = head.assemble [] := by
  cases head with
  | constant name => exact absurd rfl (notConstant name)
  | cons element => cases noParts
  | applied name payload => cases noParts
  | tuple components =>
      cases value with
      | tuple values =>
          rw [rebuild, Witness.covers] at covers
          rw [List.length_eq_zero_iff.mp (Witness.coversList_length_eq covers).symm]
          rfl
      | _ => cases covers
  | _ =>
      cases value <;> simp_all [rebuild, Witness.covers, assemble]

theorem exists_opens_of_covers_rebuild {witnesses : List Witness}
    (complete : witnesses.length = head.arity)
    (covers : (head.rebuild witnesses).covers value = true) :
    ∃ parts, head.Opens value parts ∧ Witness.coversList witnesses parts = true := by
  cases head with
  | cons element =>
      obtain ⟨first, rest, rfl⟩ := List.length_eq_two.mp complete
      cases value with
      | cons head tail =>
          refine ⟨[head, tail], .cons element head tail, ?_⟩
          simpa [rebuild, Witness.covers, Witness.coversList] using covers
      | _ => cases covers
  | applied name payload =>
      obtain ⟨inner, rfl⟩ := List.length_eq_one_iff.mp complete
      cases value with
      | ctor tag carried =>
          rw [rebuild, Witness.covers, Bool.and_eq_true, beq_iff_eq] at covers
          obtain ⟨rfl, innerCovers⟩ := covers
          refine ⟨[carried], .applied name payload carried, ?_⟩
          simpa [Witness.coversList] using innerCovers
      | _ => cases covers
  | tuple components =>
      cases value with
      | tuple values =>
          rw [rebuild, Witness.covers] at covers
          exact ⟨values, .tuple ((Witness.coversList_length_eq covers).symm.trans complete), covers⟩
      | _ => cases covers
  | constant name =>
      rw [List.length_eq_zero_iff.mp complete]
      cases value with
      | ctor tag carried =>
          rw [rebuild, Witness.covers, beq_iff_eq] at covers
          subst covers
          exact ⟨[], .constant name carried, rfl⟩
      | _ => cases covers
  | _ =>
      rw [List.length_eq_zero_iff.mp complete] at covers ⊢
      rw [eq_assemble_of_covers_rebuild rfl (by simp) covers]
      exact ⟨[], opens_assemble rfl, rfl⟩

theorem covers_assemble {witnesses : List Witness} (complete : witnesses.length = head.arity)
    (covers : Witness.coversList witnesses parts = true) :
    (head.rebuild witnesses).covers (head.assemble parts) = true := by
  have partsComplete := (Witness.coversList_length_eq covers).symm.trans complete
  cases head with
  | cons element =>
      obtain ⟨_, _, rfl⟩ := List.length_eq_two.mp complete
      obtain ⟨_, _, rfl⟩ := List.length_eq_two.mp partsComplete
      simpa [rebuild, assemble, Witness.covers, Witness.coversList] using covers
  | applied name payload =>
      obtain ⟨_, rfl⟩ := List.length_eq_one_iff.mp complete
      obtain ⟨_, rfl⟩ := List.length_eq_one_iff.mp partsComplete
      simpa [rebuild, assemble, Witness.covers, Witness.coversList] using covers
  | tuple components => simpa only [rebuild, assemble, Witness.covers] using covers
  | _ => simp [rebuild, assemble, Witness.covers]

end Head

end TypedMatch
