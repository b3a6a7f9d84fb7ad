import TypedMatch.Proofs.Scheme.ClosingRounds
import TypedMatch.Proofs.Scheme.InstantiationRounds
import TypedMatch.Proofs.Scheme.Linking

/-!
# Walks over schemes and kinds end

Making a scheme of a type ends where no links lead back, whatever the kinds of variables mention, and
instantiating a scheme always ends.  An instantiation mints at most one variable for every distinct owned
variable that the scheme mentions and that no type is given for.
-/

set_option autoImplicit false

namespace TypedMatch.Store

/-- Whether instantiating a scheme with types for some parameters comes to an end, with a type and a grown
store, and whether it has minted at most one variable for every owned variable that is no parameter. -/
structure Instantiates (store : Store) (level : Level) (quantification : Quantification)
    (params : List BoundVar) (args : List (Ty MetaVar)) (scheme : Scheme) (type : Ty MetaVar)
    (grown : Store) : Prop where
  ends : ∃ rounds, ∀ beyond, ∃ reached,
    Instantiating.run level quantification beyond rounds store (pairUp params args) scheme
      = .ok (type, reached) ∧ reached.Alike grown
  mints : ∃ minted : List BoundVar, minted.Nodup ∧
    (∀ param ∈ minted, scheme.Mentions (.bound param) ∧ param ∉ params) ∧
    grown.nextVar = store.nextVar + minted.length

theorem lookup_pairUp_isSome {Arg : Type} {params : List BoundVar} {args : List Arg} {param : BoundVar}
    (fits : params.length = args.length) (among : param ∈ params) :
    ((pairUp params args).lookup param).isSome = true := by
  have paired : param ∈ (pairUp params args).map Prod.fst := by
    rw [pairUp, List.map_reverse, List.mem_reverse, List.map_fst_zip (Nat.le_of_eq fits)]
    exact among
  obtain ⟨⟨_, arg⟩, listed, rfl⟩ := List.mem_map.mp paired
  rw [List.lookup_isSome_iff]
  exact ⟨_, listed, beq_self_eq_true _⟩

theorem instantiates_instantiateWith (store : Store) (level : Level) (quantification : Quantification)
    {params : List BoundVar} {args : List (Ty MetaVar)} (fits : params.length = args.length)
    (scheme : Scheme) :
    let made := store.instantiateWith level quantification (pairUp params args) scheme
    store.Instantiates level quantification params args scheme made.1 made.2 := by
  refine ⟨Instantiating.run_eq_instantiateWith store level quantification (pairUp params args) scheme,
    pending scheme (pairUp params args), nodup_pending, ?_, ?_⟩
  · intro param isPending
    have reachable := mem_pending_iff.mp isPending
    have missing : (pairUp params args).lookup param = none := by
      cases reachable with
      | root occurs => exact (mem_unfilled.mp occurs).2
      | edge _ occurs => exact (mem_unfilled.mp occurs).2
    constructor
    · cases reachable with
      | root occurs => exact .inl (mem_unfilled.mp occurs).1
      | edge _ occurs => exact Scheme.mentions_of_kind (mem_unfilled.mp occurs).1
    · intro among
      have isGiven := lookup_pairUp_isSome fits among
      rw [missing] at isGiven
      cases isGiven
  · exact nextVar_instantiateWith store level quantification _ scheme

/-- Making a scheme ends on every store whose links lead nowhere back, and instantiating ends for every scheme,
unless it is refused at once for the number of types that are given. -/
theorem scheme_walks_end :
    (∀ (store : Store) (type : Ty MetaVar), store.Acyclic →
      (∀ level, ∃ rounds, ∀ beyond,
        Closing.run (FreeVar.generalizesAt level) beyond rounds store type = store.generalize level type) ∧
      ∃ rounds, ∀ beyond,
        Closing.run (fun _ => true) beyond rounds store type = store.generalizeAll type) ∧
    ∀ (store : Store) (level : Level) (quantification : Quantification) (scheme : Scheme),
      (∃ type grown, store.instantiate level quantification scheme = (type, grown) ∧
        store.Instantiates level quantification [] [] scheme type grown) ∧
      ∀ (params : List BoundVar) (args : List (Ty MetaVar)),
        if params.length = args.length then
          ∃ type grown, store.instantiateAt level quantification params args scheme = .ok (type, grown) ∧
            store.Instantiates level quantification params args scheme type grown
        else
          store.instantiateAt level quantification params args scheme
            = .error (.argumentCount params.length args.length) := by
  refine ⟨fun store type acyclic => ⟨fun level => ?_, ?_⟩, fun store level quantification scheme => ⟨?_, ?_⟩⟩
  · exact Closing.run_eq_close acyclic (FreeVar.generalizesAt level) type
  · exact Closing.run_eq_close acyclic (fun _ => true) type
  · have fits : ([] : List BoundVar).length = ([] : List (Ty MetaVar)).length := rfl
    exact ⟨_, _, rfl, store.instantiates_instantiateWith level quantification fits scheme⟩
  · intro params args
    by_cases fits : params.length = args.length
    · rw [if_pos fits]
      exact ⟨_, _, if_pos fits, store.instantiates_instantiateWith level quantification fits scheme⟩
    · rw [if_neg fits]
      exact if_neg fits

/-- Two records whose kinds mention each other, one of which mentions a variable that has no entry. -/
def circularScheme : Scheme where
  quantified :=
    [⟨⟨1⟩, .record [("other", .var (.bound ⟨2⟩)), ("self", .var (.bound ⟨1⟩))]⟩,
      ⟨⟨2⟩, .record [("back", .var (.bound ⟨1⟩)), ("lost", .var (.bound ⟨9⟩))]⟩]
  body := .product [.var (.bound ⟨1⟩), .var (.bound ⟨1⟩), .var (.free ⟨0⟩)]

/-- Generalising a type whose kinds lead around ends, and so does instantiating a scheme whose kinds do, with
three new variables. -/
theorem circular_walks_end :
    (∃ rounds, ∀ beyond,
      Closing.run (FreeVar.generalizesAt .bottom) beyond rounds tangledStore tangledType
        = tangledStore.generalize .bottom tangledType) ∧
    ∃ type grown, tangledStore.instantiate ⟨7⟩ .forbidden circularScheme = (type, grown) ∧
      tangledStore.Instantiates ⟨7⟩ .forbidden [] [] circularScheme type grown ∧
      type = .product [.var ⟨4⟩, .var ⟨4⟩, .var ⟨0⟩] ∧ grown.nextVar = 7 := by
  obtain ⟨closings, instantiations⟩ := scheme_walks_end
  obtain ⟨generalizes, _⟩ := closings tangledStore tangledType tangledStore_acyclic
  obtain ⟨⟨type, grown, made, instantiates⟩, _⟩ :=
    instantiations tangledStore ⟨7⟩ .forbidden circularScheme
  refine ⟨generalizes .bottom, type, grown, made, instantiates, ?_, ?_⟩
  · cases made
    rfl
  · cases made
    rfl

end TypedMatch.Store
