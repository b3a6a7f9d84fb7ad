import TypedMatch.Proofs.Scheme.Linking

/-!
# Agreement of the two ways to give types

An instance with types given for parameters and an instance whose parameters are linked to the same types
resemble each other.  The renaming is read off the scheme: an owned variable without a given type has one new
variable in either instance, each at the place where the walk of that instance enters it.
-/

set_option autoImplicit false

namespace TypedMatch.Store

def filledInstance (store : Store) (level : Level) (quantification : Quantification)
    (params : List BoundVar) (args : List (Ty MetaVar)) (scheme : Scheme) : Store :=
  (store.instantiateWith level quantification (pairUp params args) scheme).2

/-- A variable of an instance with given types as a variable of the instance without.  The new variables of
an owned one correspond; all others are common to both. -/
def linkedName (store : Store) (given : List (BoundVar × Ty MetaVar)) (scheme : Scheme) (v : MetaVar) :
    MetaVar :=
  if v.number < store.nextVar then v
  else
    match (pending scheme given)[v.number - store.nextVar]? with
    | some param => store.instanceVar [] scheme param
    | none => v

/-- Whether a variable is free, and belongs to the store together with all that is met from it. -/
def Rests (store : Store) (v : MetaVar) : Prop :=
  store.Holds (fun _ => true) [v] ∧ ∃ record, store.cells.get? v = some (.free record)

/-- Whether a variable is at rest in the store before, or is the new variable of an owned one. -/
def Placed (store : Store) (given : List (BoundVar × Ty MetaVar)) (scheme : Scheme) (v : MetaVar) : Prop :=
  store.Rests v ∨ ∃ param ∈ pending scheme given, store.instanceVar given scheme param = v

/-- Whether a type of one later store and a type of another one are the same once links have been followed,
but for the variables that each store has minted since.  The minted variables that are reached correspond one
to one, and what is known of them is the same. -/
structure AgreesBut (store grown linked : Store) (type image : Ty MetaVar)
    (rename : MetaVar → MetaVar) : Prop where
  zonk_eq : linked.zonk image = (grown.zonk type).map rename
  old : ∀ v : MetaVar, v.number < store.nextVar → rename v = v
  bijective : Set.BijOn rename
    {v | store.nextVar ≤ v.number ∧ grown.Reaches (fun _ => true) type v}
    {v | store.nextVar ≤ v.number ∧ linked.Reaches (fun _ => true) image v}
  cells : ∀ v : MetaVar, store.nextVar ≤ v.number → grown.Reaches (fun _ => true) type v →
    ∃ record other, grown.cells.get? v = some (.free record) ∧
      linked.cells.get? (rename v) = some (.free other) ∧
      other.level = record.level ∧ other.quantification = record.quantification ∧
      linked.zonkKind other.kind = (grown.zonkKind record.kind).bind fun w => .var (rename w)

variable {store : Store} {scheme : Scheme} {given : List (BoundVar × Ty MetaVar)}
  {params : List BoundVar} {args : List (Ty MetaVar)} {level : Level} {quantification : Quantification}

/-! ## Corresponding variables -/

theorem linkedName_of_old {v : MetaVar} (old : v.number < store.nextVar) :
    store.linkedName given scheme v = v :=
  if_pos old

theorem linkedName_instanceVar {param : BoundVar} (isPending : param ∈ pending scheme given) :
    store.linkedName given scheme (store.instanceVar given scheme param)
      = store.instanceVar [] scheme param := by
  have notOld : ¬ store.nextVar + (pending scheme given).idxOf param < store.nextVar := by omega
  have inside := List.idxOf_lt_length_of_mem isPending
  rw [linkedName, instanceVar, if_neg notOld, Nat.add_sub_cancel_left, List.getElem?_eq_getElem inside,
    List.getElem_idxOf]

theorem Rests.old {v : MetaVar} (rests : store.Rests v) : v.number < store.nextVar :=
  (rests.1 v (.here (List.mem_singleton.mpr rfl))).1

theorem rests_of_mem_zonk (acyclic : store.Acyclic) {type : Ty MetaVar}
    (held : store.Holds (fun _ => true) type.leaves) {v : MetaVar}
    (occurs : v ∈ (store.zonk type).leaves) : store.Rests v := by
  rw [leaves_zonk] at occurs
  exact ⟨held.of_sees (.of_meets (meets_of_mem_flatMap_target occurs)),
    free_of_mem_flatMap_target acyclic held.owns occurs⟩

theorem Placed.linkedName_inj {v w : MetaVar} (vPlaced : store.Placed given scheme v)
    (wPlaced : store.Placed given scheme w)
    (same : store.linkedName given scheme v = store.linkedName given scheme w) : v = w := by
  have apart : ∀ {u : MetaVar} {param : BoundVar}, store.Rests u → param ∈ pending scheme given →
      store.linkedName given scheme u
        ≠ store.linkedName given scheme (store.instanceVar given scheme param) := by
    intro u param rests isPending sameName
    rw [linkedName_of_old rests.old, linkedName_instanceVar isPending] at sameName
    have old := rests.old
    rw [sameName] at old
    exact Nat.not_lt.mpr (Nat.le_add_right _ _) old
  rcases vPlaced with vRests | ⟨param, isPending, rfl⟩
  · rcases wPlaced with wRests | ⟨other, otherPending, rfl⟩
    · rwa [linkedName_of_old vRests.old, linkedName_of_old wRests.old] at same
    · exact absurd same (apart vRests otherPending)
  · rcases wPlaced with wRests | ⟨other, otherPending, rfl⟩
    · exact absurd same.symm (apart wRests isPending)
    · rw [linkedName_instanceVar isPending, linkedName_instanceVar otherPending] at same
      rw [instanceVar_inj (mem_pending_of_given isPending) same]

namespace Fills

variable (fills : store.Fills scheme params args)
include fills

/-! ## What the variables of the scheme become -/

theorem zonk_of_held (level : Level) (quantification : Quantification) {type : Ty MetaVar}
    (held : store.Holds (fun _ => true) type.leaves) :
    let grown := store.filledInstance level quantification params args scheme
    let linked := store.linkedInstance level quantification params args scheme
    linked.zonk type = (grown.zonk type).map (store.linkedName (pairUp params args) scheme) ∧
      ∀ v ∈ (grown.zonk type).leaves, store.Rests v := by
  intro grown linked
  have extension : grown.Extends store :=
    store.instantiateWith_extends level quantification (pairUp params args) scheme
  have grownSame : grown.zonk type = store.zonk type :=
    zonk_of_kept fills.acyclic (extension.acyclic fills.acyclic) extension.kept held.owns
  have linkedSame : linked.zonk type = store.zonk type :=
    zonk_of_kept fills.acyclic (fills.acyclic_linkedInstance level quantification)
      (fun v old => fills.get?_old old) held.owns
  have rest : ∀ v ∈ (store.zonk type).leaves, store.Rests v :=
    fun v occurs => rests_of_mem_zonk fills.acyclic held occurs
  have unchanged : (store.zonk type).map (store.linkedName (pairUp params args) scheme)
      = (store.zonk type).bind .var :=
    Ty.bind_congr _ fun v occurs => congrArg Ty.var (linkedName_of_old (rest v occurs).old)
  rw [grownSame, linkedSame, unchanged, Ty.bind_var]
  exact ⟨rfl, rest⟩

/-- What a variable of the scheme becomes in the two instances is the same up to the renaming: a variable of
the store stays, a parameter is its argument or linked to it, and any other owned variable is new in both. -/
theorem zonk_instanceOf (level : Level) (quantification : Quantification) {x : SchemeVar}
    (scanned : Scanned scheme (pairUp params args) x) :
    let given := pairUp params args
    let grown := store.filledInstance level quantification params args scheme
    let linked := store.linkedInstance level quantification params args scheme
    linked.zonk (store.instanceOf (pending scheme []) [] x)
        = (grown.zonk (store.instanceOf (pending scheme given) given x)).map
            (store.linkedName given scheme) ∧
      ∀ v ∈ (grown.zonk (store.instanceOf (pending scheme given) given x)).leaves,
        store.Placed given scheme v := by
  intro given grown linked
  cases x with
  | free v =>
      have held : store.Holds (fun _ => true) (Ty.var v).leaves := fills.schemeHeld v scanned.mentions
      obtain ⟨same, rest⟩ := fills.zonk_of_held level quantification held
      exact ⟨same, fun w occurs => .inl (rest w occurs)⟩
  | bound param =>
      have isPending : param ∈ pending scheme [] := scanned.of_given.pending rfl
      cases found : given.lookup param with
      | some arg =>
          obtain ⟨same, rest⟩ := fills.zonk_of_held level quantification
            (fills.argsHeld arg (Template.mem_of_lookup_pairUp found))
          have isArg : store.instanceOf (pending scheme given) given (.bound param) = arg := by
            simp only [instanceOf, found]
          have isLinked : linked.zonk (store.instanceOf (pending scheme []) [] (.bound param))
              = linked.zonk arg :=
            target_of_linked (fills.acyclic_linkedInstance level quantification)
              (fills.get?_linked isPending found)
          rw [isArg, isLinked]
          exact ⟨same, fun w occurs => .inl (rest w occurs)⟩
      | none =>
          have isPendingHere : param ∈ pending scheme given := scanned.pending found
          have isNew : store.instanceOf (pending scheme given) given (.bound param)
              = .var (store.instanceVar given scheme param) := by
            simp only [instanceOf, found, instanceVar]
          have grownNew : grown.zonk (.var (store.instanceVar given scheme param))
              = .var (store.instanceVar given scheme param) :=
            target_of_free (get?_instanceVar store level quantification isPendingHere)
          have linkedNew : linked.zonk (store.instanceOf (pending scheme []) [] (.bound param))
              = .var (store.instanceVar [] scheme param) :=
            target_of_free (fills.get?_new isPending found)
          rw [isNew, grownNew, linkedNew, Ty.map, Ty.bind, linkedName_instanceVar isPendingHere]
          exact ⟨rfl, fun w occurs => .inr ⟨param, isPendingHere, (List.mem_singleton.mp occurs).symm⟩⟩

theorem zonkKind_instance (level : Level) (quantification : Quantification) {param : BoundVar}
    (isPending : param ∈ pending scheme (pairUp params args)) :
    let given := pairUp params args
    let grown := store.filledInstance level quantification params args scheme
    let linked := store.linkedInstance level quantification params args scheme
    linked.zonkKind ((scheme.kindOf param).bind (store.instanceOf (pending scheme []) []))
      = (grown.zonkKind ((scheme.kindOf param).bind (store.instanceOf (pending scheme given) given))).bind
          fun w => .var (store.linkedName given scheme w) := by
  intro given grown linked
  simp only [zonkKind, Kind.bind_bind]
  apply Kind.bind_congr
  intro x occurs
  exact (fills.zonk_instanceOf level quantification (.inr ⟨param, isPending, occurs⟩)).1

/-! ## The instances resemble each other -/

theorem zonkKind_of_rests (level : Level) (quantification : Quantification) {v : MetaVar}
    {record : FreeVar} (rests : store.Rests v) (stored : store.cells.get? v = some (.free record)) :
    let grown := store.filledInstance level quantification params args scheme
    let linked := store.linkedInstance level quantification params args scheme
    linked.zonkKind record.kind = (grown.zonkKind record.kind).bind
        (fun w => .var (store.linkedName (pairUp params args) scheme w)) ∧
      ∀ w ∈ (grown.zonkKind record.kind).leaves, store.Rests w := by
  intro grown linked
  have heldKind : ∀ u ∈ record.kind.leaves, store.Holds (fun _ => true) (Ty.var u).leaves := by
    intro u inKind
    refine rests.1.of_sees ?_
    exact .kind (.here (List.mem_singleton.mpr rfl)) (chosen?_eq_some.mpr ⟨stored, rfl⟩) inKind
  constructor
  · rw [zonkKind, zonkKind, Kind.bind_bind]
    apply Kind.bind_congr
    intro u inKind
    exact (fills.zonk_of_held level quantification (heldKind u inKind)).1
  · intro w occurs
    rw [leaves_zonkKind, List.mem_flatMap] at occurs
    obtain ⟨u, inKind, behind⟩ := occurs
    exact (fills.zonk_of_held level quantification (heldKind u inKind)).2 w behind

theorem placed_of_reaches (level : Level) (quantification : Quantification) {v : MetaVar}
    (reached : (store.filledInstance level quantification params args scheme).Reaches (fun _ => true)
      (store.instantiateWith level quantification (pairUp params args) scheme).1 v) :
    store.Placed (pairUp params args) scheme v := by
  induction reached with
  | leaf occurs =>
      rw [zonk, instantiateWith, Ty.bind_bind, Ty.leaves_bind, List.mem_flatMap] at occurs
      obtain ⟨x, inBody, behind⟩ := occurs
      exact (fills.zonk_instanceOf level quantification (.inl inBody)).2 _ behind
  | kind _ isChosen occurs inductionHypothesis =>
      have stored := (chosen?_eq_some.mp isChosen).1
      rcases inductionHypothesis with rests | ⟨param, isPending, rfl⟩
      · have extension := store.instantiateWith_extends level quantification (pairUp params args) scheme
        rw [filledInstance, extension.kept _ rests.old] at stored
        exact .inl ((fills.zonkKind_of_rests level quantification rests stored).2 _ occurs)
      · rw [filledInstance, get?_instanceVar store level quantification isPending] at stored
        cases stored
        rw [zonkKind, Kind.bind_bind, Kind.leaves_bind, List.mem_flatMap] at occurs
        obtain ⟨x, inKind, behind⟩ := occurs
        exact (fills.zonk_instanceOf level quantification (.inr ⟨param, isPending, inKind⟩)).2 _ behind

/-- A variable in place is free in both instances, at the same level with the same quantification, and its
kinds are the same up to the renaming. -/
theorem cells_of_placed (level : Level) (quantification : Quantification) {v : MetaVar}
    (placed : store.Placed (pairUp params args) scheme v) :
    let rename := store.linkedName (pairUp params args) scheme
    let grown := store.filledInstance level quantification params args scheme
    let linked := store.linkedInstance level quantification params args scheme
    ∃ record other, grown.cells.get? v = some (.free record) ∧
      linked.cells.get? (rename v) = some (.free other) ∧
      other.level = record.level ∧ other.quantification = record.quantification ∧
      linked.zonkKind other.kind = (grown.zonkKind record.kind).bind fun w => .var (rename w) := by
  intro rename grown linked
  rcases placed with rests | ⟨param, isPending, rfl⟩
  · obtain ⟨record, stored⟩ := rests.2
    have extension : grown.Extends store :=
      store.instantiateWith_extends level quantification (pairUp params args) scheme
    have isSame : rename v = v := linkedName_of_old rests.old
    refine ⟨record, record, (extension.kept v rests.old).trans stored, ?_, rfl, rfl, ?_⟩
    · rw [isSame, fills.get?_old rests.old, stored]
    · exact (fills.zonkKind_of_rests level quantification rests stored).1
  · have missing := lookup_of_mem_pending isPending
    have isNew : rename (store.instanceVar (pairUp params args) scheme param)
        = store.instanceVar [] scheme param := linkedName_instanceVar isPending
    rw [isNew]
    exact ⟨_, _, get?_instanceVar store level quantification isPending,
      fills.get?_new (mem_pending_of_given isPending) missing, rfl, rfl,
      fills.zonkKind_instance level quantification isPending⟩

theorem resembles (level : Level) (quantification : Quantification) :
    (store.filledInstance level quantification params args scheme).Resembles
      (store.linkedInstance level quantification params args scheme) (fun _ => true)
      (store.instantiateWith level quantification (pairUp params args) scheme).1
      (store.instantiate level quantification scheme).1
      (store.linkedName (pairUp params args) scheme) where
  zonk_eq := by
    rw [zonk, zonk, instantiate, instantiateWith, instantiateWith, Ty.map, Ty.bind_bind, Ty.bind_bind,
      Ty.bind_bind]
    apply Ty.bind_congr
    intro x occurs
    have same := (fills.zonk_instanceOf level quantification (.inl occurs)).1
    rwa [Ty.map, zonk, zonk, Ty.bind_bind] at same
  injective := fun v w vReached wReached =>
    (fills.placed_of_reaches level quantification vReached).linkedName_inj
      (fills.placed_of_reaches level quantification wReached)
  chosen := by
    intro v record reached isChosen
    obtain ⟨found, other, stored, otherStored, _, _, sameKind⟩ :=
      fills.cells_of_placed level quantification (fills.placed_of_reaches level quantification reached)
    cases stored.symm.trans (chosen?_eq_some.mp isChosen).1
    exact ⟨other, chosen?_eq_some.mpr ⟨otherStored, rfl⟩, sameKind⟩
  unchosen := by
    intro v reached notChosen
    obtain ⟨record, _, stored, _⟩ :=
      fills.cells_of_placed level quantification (fills.placed_of_reaches level quantification reached)
    have isChosen : (store.filledInstance level quantification params args scheme).chosen?
        (fun _ => true) v = some record := chosen?_eq_some.mpr ⟨stored, rfl⟩
    rw [notChosen] at isChosen
    cases isChosen

end Fills

/-- Instantiating a scheme with arguments for parameters gives the same type, up to links and the numbers of
new variables, as instantiating it and linking the new variables of the parameters to the arguments. -/
theorem instantiateAt_agrees_linked (fills : store.Fills scheme params args) (level : Level)
    (quantification : Quantification) :
    ∃ type grown rename,
      store.instantiateAt level quantification params args scheme = .ok (type, grown) ∧
      grown.Acyclic ∧ (store.linkedInstance level quantification params args scheme).Acyclic ∧
      store.AgreesBut grown (store.linkedInstance level quantification params args scheme) type
        (store.instantiate level quantification scheme).1 rename := by
  have extension := store.instantiateWith_extends level quantification (pairUp params args) scheme
  have resembles := fills.resembles level quantification
  refine ⟨_, _, store.linkedName (pairUp params args) scheme, if_pos fills.fits,
    extension.acyclic fills.acyclic, fills.acyclic_linkedInstance level quantification, ?_⟩
  exact
    { zonk_eq := resembles.zonk_eq
      old := fun v => linkedName_of_old
      bijective := by
        refine ⟨?_, ?_, ?_⟩
        · rintro v ⟨new, reached⟩
          refine ⟨?_, resembles.reaches_iff.mpr ⟨v, reached, rfl⟩⟩
          rcases fills.placed_of_reaches level quantification reached with rests | ⟨param, isPending, rfl⟩
          · exact absurd rests.old (Nat.not_lt.mpr new)
          · rw [linkedName_instanceVar isPending]
            exact Nat.le_add_right _ _
        · rintro v ⟨_, vReached⟩ w ⟨_, wReached⟩
          exact resembles.injective v w vReached wReached
        · rintro w ⟨new, reached⟩
          obtain ⟨v, vReached, rfl⟩ := resembles.reaches_iff.mp reached
          refine ⟨v, ⟨?_, vReached⟩, rfl⟩
          by_contra old
          rw [linkedName_of_old (Nat.not_le.mp old)] at new
          exact old new
      cells := fun v _ reached =>
        fills.cells_of_placed level quantification (fills.placed_of_reaches level quantification reached) }

def boxScheme : Scheme where
  quantified :=
    [⟨⟨1⟩, .record [("item", .var (.bound ⟨0⟩)), ("next", .var (.bound ⟨1⟩)), ("weak", .var (.free ⟨2⟩))]⟩,
      ⟨⟨0⟩, .any⟩]
  body := .product [.var (.bound ⟨0⟩), .var (.bound ⟨1⟩)]

/-- The element is given, as a variable that is linked to a list.  The record is the first new variable where
the element is given and the second where it is linked, and in both its kind asks for the given element. -/
theorem boxScheme_agrees :
    let linked := tangledStore.linkedInstance ⟨7⟩ .forbidden [⟨0⟩] [.var ⟨3⟩] boxScheme
    ∃ type grown rename,
      tangledStore.instantiateAt ⟨7⟩ .forbidden [⟨0⟩] [.var ⟨3⟩] boxScheme = .ok (type, grown) ∧
      tangledStore.AgreesBut grown linked type (tangledStore.instantiate ⟨7⟩ .forbidden boxScheme).1
        rename ∧
      type = .product [.var ⟨3⟩, .var ⟨4⟩] ∧ rename ⟨4⟩ = ⟨5⟩ ∧
      ∃ other, linked.cells.get? ⟨5⟩ = some (.free other) ∧
        linked.zonkKind other.kind
          = .record [("item", .list (.var ⟨1⟩)), ("next", .var ⟨5⟩), ("weak", .var ⟨2⟩)] := by
  intro linked
  have closed : tangledStore.Closed := by decide
  have schemeHeld : ∀ v, boxScheme.Mentions (.free v) → tangledStore.Holds (fun _ => true) [v] := by
    intro v mentions
    have isWeak : v = ⟨2⟩ := by simpa [Scheme.Mentions, boxScheme, Ty.leaves, Ty.leavesList,
      Ty.leavesFields, Kind.leaves] using mentions
    rw [isWeak]
    exact closed.holds (by decide)
  have argsHeld : ∀ arg ∈ [Ty.var (⟨3⟩ : MetaVar)], tangledStore.Holds (fun _ => true) arg.leaves := by
    intro arg among
    rw [List.mem_singleton.mp among]
    exact closed.holds (by decide)
  have fills : tangledStore.Fills boxScheme [⟨0⟩] [.var ⟨3⟩] :=
    ⟨tangledStore_acyclic, schemeHeld, argsHeld, by decide, rfl⟩
  obtain ⟨type, grown, rename, made, _, _, agrees⟩ := instantiateAt_agrees_linked fills ⟨7⟩ .forbidden
  have typeEq : type = .product [.var ⟨3⟩, .var ⟨4⟩] := by
    cases made
    rfl
  have grownZonk : grown.zonk type = .product [.list (.var ⟨1⟩), .var ⟨4⟩] := by
    cases made
    rfl
  have linkedZonk : linked.zonk (tangledStore.instantiate ⟨7⟩ .forbidden boxScheme).1
      = .product [.list (.var ⟨1⟩), .var ⟨5⟩] := rfl
  have renamed := linkedZonk.symm.trans agrees.zonk_eq
  rw [grownZonk] at renamed
  have renamedBox : rename ⟨4⟩ = ⟨5⟩ :=
    (Ty.var.inj (List.cons.inj (List.cons.inj (Ty.product.inj renamed)).2).1).symm
  have reached : grown.Reaches (fun _ => true) type ⟨4⟩ := by
    apply Reaches.leaf
    rw [grownZonk]
    decide
  obtain ⟨record, other, _, otherStored, _⟩ := agrees.cells ⟨4⟩ (by decide) reached
  rw [renamedBox] at otherStored
  refine ⟨type, grown, rename, made, agrees, typeEq, renamedBox, other, otherStored, ?_⟩
  cases otherStored
  rfl

end TypedMatch.Store
