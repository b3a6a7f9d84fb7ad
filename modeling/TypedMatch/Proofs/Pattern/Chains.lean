import Mathlib.Data.List.Forall2
import TypedMatch.Value.Accepts

/-!
# Chains of tuple patterns

A pattern has a shape just if its chains are in order: each of them has an end behind its last component,
and no such end stands anywhere else.  Names make a difference here.  A bound pattern may be a component,
but where a chain goes on nothing may be bound, and neither may a variable stand there.  Where there is a
shape it accepts what the pattern matches, with a tuple for every chain; where there is none, the fault says
what stands at the wrong place.
-/

set_option autoImplicit false

namespace TypedMatch

/-- Where a pattern stands: behind a component of a tuple, where its chain goes on, or anywhere else. -/
inductive Standing where
  | behind
  | alone
deriving DecidableEq, Repr

namespace Pattern

/-- The patterns that occur in a pattern which stands at a place, each with its own place. -/
def occurrences (place : Standing) (pattern : Pattern) : List (Standing × Pattern) :=
  (place, pattern) ::
    match pattern with
    | .binding _ inner => inner.occurrences .alone
    | .cons head tail => head.occurrences .alone ++ tail.occurrences .alone
    | .chain first rest => first.occurrences .alone ++ rest.occurrences .behind
    | .ctor _ payload => payload.occurrences .alone
    | _ => []

/-- Whether all chains of a pattern are in order. -/
structure WellChained (pattern : Pattern) : Prop where
  /-- An end stands only behind a component. -/
  noLoneEnd : (.alone, .chainEnd) ∉ pattern.occurrences .alone
  /-- Behind a component stand further components, if any, and then an end. -/
  ended : ∀ rest, (.behind, rest) ∈ pattern.occurrences .alone → ∃ components, rest = .ofTuple components

/-- Whether a pattern may stand behind a component. -/
def isChain : Pattern → Bool
  | .chain _ _ | .chainEnd => true
  | _ => false

def Misplaces (pattern : Pattern) (place : Standing) (fault : Fault) : Prop :=
  fault = .emptyTuple ∧ (.alone, .chainEnd) ∈ pattern.occurrences place ∨
    ∃ found, fault = .unterminatedTuple found ∧ (.behind, found) ∈ pattern.occurrences place ∧
      found.isChain = false

/-- Whether a pattern matches a value.  A chain matches the tuples of as many values as it has components,
each of which matches its own value; a component that is a tuple itself matches a tuple. -/
inductive Matches : Pattern → Value → Prop where
  | wildcard {value : Value} : Matches .wildcard value
  | var {name : String} {value : Value} : Matches (.var name) value
  | binding {name : String} {pattern : Pattern} {value : Value} :
      Matches pattern value → Matches (.binding name pattern) value
  | unit : Matches .unit .unit
  | bool {value : Bool} : Matches (.bool value) (.bool value)
  | int {value : Int} : Matches (.int value) (.int value)
  | str {value : String} : Matches (.str value) (.str value)
  | nil : Matches .nil .nil
  | cons {head tail : Pattern} {first rest : Value} :
      Matches head first → Matches tail rest → Matches (.cons head tail) (.cons first rest)
  | tuple {components : List Pattern} {values : List Value} : components ≠ [] →
      components.length = values.length →
      (∀ pair ∈ components.zip values, Matches pair.1 pair.2) →
      Matches (.ofTuple components) (.tuple values)
  | ctor {name : String} {pattern : Pattern} {value : Value} :
      Matches pattern value → Matches (.ctor name pattern) (.ctor name value)

end Pattern

variable {pattern inner : Pattern} {place other : Standing} {fault : Fault} {value : Value}

/-! ## What a shape accepts -/

namespace Pattern

theorem acceptsChain_ofTuple : ∀ (components : List Pattern) (values : List Value),
    (ofTuple components).acceptsChain values = true ↔ components.length = values.length ∧
      ∀ pair ∈ components.zip values, pair.1.accepts pair.2 = true
  | [], [] | [], _ :: _ | _ :: _, [] => by simp [ofTuple, acceptsChain]
  | component :: components, value :: values => by
      have further := acceptsChain_ofTuple components values
      rw [ofTuple] at further
      simp [ofTuple, acceptsChain, further, and_left_comm]

theorem Matches.accepts (isMatched : pattern.Matches value) : pattern.accepts value = true := by
  induction isMatched with
  | wildcard | var | unit | nil => rfl
  | binding _ inductionHypothesis => exact inductionHypothesis
  | bool | int | str => exact beq_self_eq_true _
  | cons _ _ headHypothesis tailHypothesis =>
      rw [Pattern.accepts, headHypothesis, tailHypothesis, Bool.and_self]
  | @tuple components values nonempty sameLength _ inductionHypothesis =>
      have accepted := (acceptsChain_ofTuple components values).mpr ⟨sameLength, inductionHypothesis⟩
      match components, values with
      | first :: rest, value :: more => exact accepted
      | first :: rest, [] => cases sameLength
      | [], _ => exact absurd rfl nonempty
  | ctor _ inductionHypothesis =>
      rw [Pattern.accepts, beq_self_eq_true, inductionHypothesis, Bool.and_self]

mutual

theorem matches_of_accepts : ∀ {pattern : Pattern} {value : Value},
    pattern.accepts value = true → pattern.Matches value
  | .wildcard, _, _ => .wildcard
  | .var _, _, _ => .var
  | .binding _ inner, value, accepted => .binding (@matches_of_accepts inner value accepted)
  | .unit, .unit, _ => .unit
  | .bool expected, .bool value, accepted => by
      rw [eq_of_beq accepted]
      exact .bool
  | .int expected, .int value, accepted => by
      rw [eq_of_beq accepted]
      exact .int
  | .str expected, .str value, accepted => by
      rw [eq_of_beq accepted]
      exact .str
  | .nil, .nil, _ => .nil
  | .cons head tail, .cons first rest, accepted => by
      obtain ⟨headAccepts, tailAccepts⟩ := Bool.and_eq_true_iff.mp accepted
      exact .cons (matches_of_accepts headAccepts) (matches_of_accepts tailAccepts)
  | .chain first rest, .tuple (value :: more), accepted => by
      obtain ⟨firstAccepts, restAccepts⟩ := Bool.and_eq_true_iff.mp accepted
      obtain ⟨components, rfl, sameLength, each⟩ := matches_of_acceptsChain restAccepts
      exact .tuple (List.cons_ne_nil first components) (congrArg (· + 1) sameLength)
        (List.forall_mem_cons.mpr ⟨matches_of_accepts firstAccepts, each⟩)
  | .ctor expected payload, .ctor name value, accepted => by
      obtain ⟨sameName, payloadAccepts⟩ := Bool.and_eq_true_iff.mp accepted
      rw [eq_of_beq sameName]
      exact .ctor (matches_of_accepts payloadAccepts)

theorem matches_of_acceptsChain : ∀ {chain : Pattern} {values : List Value},
    chain.acceptsChain values = true → ∃ components, chain = .ofTuple components ∧
      components.length = values.length ∧ ∀ pair ∈ components.zip values, pair.1.Matches pair.2
  | .chainEnd, [], _ => ⟨[], rfl, rfl, List.forall_mem_nil _⟩
  | .chain component next, value :: more, accepted => by
      obtain ⟨componentAccepts, nextAccepts⟩ := Bool.and_eq_true_iff.mp accepted
      obtain ⟨components, rfl, sameLength, each⟩ := matches_of_acceptsChain nextAccepts
      exact ⟨component :: components, rfl, congrArg (· + 1) sameLength,
        List.forall_mem_cons.mpr ⟨matches_of_accepts componentAccepts, each⟩⟩

end

theorem accepts_iff_matches : pattern.accepts value = true ↔ pattern.Matches value :=
  ⟨matches_of_accepts, Matches.accepts⟩

end Pattern

/-! ## Faults -/

namespace Pattern

theorem Misplaces.of_subset (misplaces : inner.Misplaces other fault)
    (subset : inner.occurrences other ⊆ pattern.occurrences place) : pattern.Misplaces place fault := by
  rcases misplaces with ⟨isEmpty, occurs⟩ | ⟨found, isFound, occurs, notChain⟩
  · exact .inl ⟨isEmpty, subset occurs⟩
  · exact .inr ⟨found, isFound, subset occurs, notChain⟩

theorem isChain_ofTuple (components : List Pattern) : (ofTuple components).isChain = true := by
  cases components with
  | nil => rfl
  | cons first rest => rfl

theorem WellChained.not_misplaces (wellChained : pattern.WellChained) (fault : Fault) :
    ¬ pattern.Misplaces .alone fault := by
  rintro (⟨_, occurs⟩ | ⟨found, _, occurs, notChain⟩)
  · exact wellChained.noLoneEnd occurs
  · obtain ⟨components, rfl⟩ := wellChained.ended found occurs
    rw [isChain_ofTuple] at notChain
    cases notChain

end Pattern

namespace Shape

mutual

theorem ofPattern_failsBy : ∀ pattern : Pattern, FailsBy (pattern.Misplaces .alone) (ofPattern pattern)
  | .wildcard | .var _ | .unit | .bool _ | .int _ | .str _ | .nil => trivial
  | .binding _ inner =>
      (ofPattern_failsBy inner).imp fun _ misplaces => misplaces.of_subset (List.subset_cons_self _ _)
  | .cons head tail => by
      refine ((ofPattern_failsBy head).imp ?_).bind fun _ =>
        ((ofPattern_failsBy tail).imp ?_).bind fun _ => trivial
      · exact fun _ misplaces => misplaces.of_subset (by simp [Pattern.occurrences])
      · exact fun _ misplaces => misplaces.of_subset (by simp [Pattern.occurrences])
  | .chain first rest => by
      refine ((ofPattern_failsBy first).imp ?_).bind fun _ =>
        ((ofChain_failsBy rest).imp ?_).bind fun _ => trivial
      · exact fun _ misplaces => misplaces.of_subset (by simp [Pattern.occurrences])
      · exact fun _ misplaces => misplaces.of_subset (by simp [Pattern.occurrences])
  | .chainEnd => .inl ⟨rfl, .head _⟩
  | .ctor _ payload => by
      refine ((ofPattern_failsBy payload).imp ?_).bind fun _ => trivial
      exact fun _ misplaces => misplaces.of_subset (List.subset_cons_self _ _)

theorem ofChain_failsBy : ∀ chain : Pattern, FailsBy (chain.Misplaces .behind) (ofChain chain)
  | .chainEnd => trivial
  | .chain component next => by
      refine ((ofPattern_failsBy component).imp ?_).bind fun _ =>
        ((ofChain_failsBy next).imp ?_).bind fun _ => trivial
      · exact fun _ misplaces => misplaces.of_subset (by simp [Pattern.occurrences])
      · exact fun _ misplaces => misplaces.of_subset (by simp [Pattern.occurrences])
  | .wildcard | .var _ | .unit | .bool _ | .int _ | .str _ | .nil | .binding _ _ | .cons _ _
  | .ctor _ _ => .inr ⟨_, rfl, .head _, rfl⟩

end

/-! ## Patterns in order -/

theorem exists_ofTuple_of_ofChain : ∀ {chain : Pattern} {shapes : List Shape},
    ofChain chain = .ok shapes → ∃ components, chain = .ofTuple components
  | .chainEnd, _, _ => ⟨[], rfl⟩
  | .chain component next, _, shaped => by
      obtain ⟨_, _, shaped⟩ := ok_of_bind shaped
      obtain ⟨_, nextShaped, _⟩ := ok_of_bind shaped
      obtain ⟨components, rfl⟩ := exists_ofTuple_of_ofChain nextShaped
      exact ⟨component :: components, rfl⟩

theorem forall₂_of_ofChain_ofTuple : ∀ {components : List Pattern} {shapes : List Shape},
    ofChain (.ofTuple components) = .ok shapes →
      List.Forall₂ (fun component shape => ofPattern component = .ok shape) components shapes
  | [], _, shaped => by
      cases shaped
      exact .nil
  | component :: components, _, shaped => by
      obtain ⟨shape, componentShaped, shaped⟩ := ok_of_bind shaped
      obtain ⟨shapes, moreShaped, shaped⟩ := ok_of_bind shaped
      cases shaped
      exact .cons componentShaped (forall₂_of_ofChain_ofTuple moreShaped)

/-- Whether what stands at a place may stand there. -/
def StandsRight (entry : Standing × Pattern) : Prop :=
  entry ≠ (.alone, .chainEnd) ∧ (entry.1 = .behind → ∃ components, entry.2 = .ofTuple components)

theorem standsRight_alone (notEnd : pattern ≠ .chainEnd) : StandsRight (.alone, pattern) :=
  ⟨fun same => notEnd (Prod.mk.inj same).2, nofun⟩

theorem standsRight_behind (components : List Pattern) : StandsRight (.behind, .ofTuple components) :=
  ⟨nofun, fun _ => ⟨components, rfl⟩⟩

mutual

theorem standsRight_of_ofPattern : ∀ {pattern : Pattern} {shape : Shape},
    ofPattern pattern = .ok shape → ∀ entry ∈ pattern.occurrences .alone, StandsRight entry
  | .wildcard, _, _ | .var _, _, _ | .unit, _, _ | .bool _, _, _ | .int _, _, _ | .str _, _, _
  | .nil, _, _ => List.forall_mem_singleton.mpr (standsRight_alone nofun)
  | .binding _ inner, shape, shaped =>
      List.forall_mem_cons.mpr
        ⟨standsRight_alone nofun, @standsRight_of_ofPattern inner shape shaped⟩
  | .cons head tail, _, shaped => by
      obtain ⟨headShape, headShaped, shaped⟩ := ok_of_bind shaped
      obtain ⟨tailShape, tailShaped, _⟩ := ok_of_bind shaped
      exact List.forall_mem_cons.mpr ⟨standsRight_alone nofun, List.forall_mem_append.mpr
        ⟨standsRight_of_ofPattern headShaped, standsRight_of_ofPattern tailShaped⟩⟩
  | .chain first rest, _, shaped => by
      obtain ⟨firstShape, firstShaped, shaped⟩ := ok_of_bind shaped
      obtain ⟨restShapes, restShaped, _⟩ := ok_of_bind shaped
      exact List.forall_mem_cons.mpr ⟨standsRight_alone nofun, List.forall_mem_append.mpr
        ⟨standsRight_of_ofPattern firstShaped, standsRight_of_ofChain restShaped⟩⟩
  | .chainEnd, _, shaped => by cases shaped
  | .ctor name payload, _, shaped => by
      obtain ⟨payloadShape, payloadShaped, _⟩ := ok_of_bind shaped
      exact List.forall_mem_cons.mpr
        ⟨standsRight_alone nofun, standsRight_of_ofPattern payloadShaped⟩

theorem standsRight_of_ofChain : ∀ {chain : Pattern} {shapes : List Shape},
    ofChain chain = .ok shapes → ∀ entry ∈ chain.occurrences .behind, StandsRight entry
  | .chainEnd, _, _ => List.forall_mem_singleton.mpr (standsRight_behind [])
  | .chain component next, _, shaped => by
      obtain ⟨components, isTuple⟩ := exists_ofTuple_of_ofChain shaped
      obtain ⟨componentShape, componentShaped, shaped⟩ := ok_of_bind shaped
      obtain ⟨nextShapes, nextShaped, _⟩ := ok_of_bind shaped
      refine List.forall_mem_cons.mpr ⟨?_, List.forall_mem_append.mpr
        ⟨standsRight_of_ofPattern componentShaped, standsRight_of_ofChain nextShaped⟩⟩
      rw [isTuple]
      exact standsRight_behind components

end

theorem wellChained_of_ofPattern {shape : Shape} (shaped : ofPattern pattern = .ok shape) :
    pattern.WellChained where
  noLoneEnd := fun occurs => (standsRight_of_ofPattern shaped _ occurs).1 rfl
  ended := fun _ occurs => (standsRight_of_ofPattern shaped _ occurs).2 rfl

theorem exists_ofPattern_iff :
    (∃ shape, ofPattern pattern = .ok shape) ↔ pattern.WellChained := by
  constructor
  · rintro ⟨shape, shaped⟩
    exact wellChained_of_ofPattern shaped
  · intro wellChained
    cases shaped : ofPattern pattern with
    | ok shape => exact ⟨shape, rfl⟩
    | error fault =>
        exact absurd ((ofPattern_failsBy pattern).of_error shaped) (wellChained.not_misplaces fault)

/-- A pattern has a shape just if its chains are in order, and else the fault says what stands at the wrong
place.  The shape accepts what the pattern matches.  That of a tuple is the tuple of the shapes of its
components, whether these are tuples or not. -/
theorem ofPattern_decides_chains (pattern : Pattern) :
    ((∃ shape, ofPattern pattern = .ok shape) ↔ pattern.WellChained) ∧
      (∀ fault, ofPattern pattern = .error fault → pattern.Misplaces .alone fault) ∧
      ∀ shape, ofPattern pattern = .ok shape →
        (∀ value, shape.accepts value = true ↔ pattern.Matches value) ∧
          ∀ components, pattern = .ofTuple components → ∃ shapes, shape = .tuple shapes ∧
            List.Forall₂ (fun component part => ofPattern component = .ok part) components shapes := by
  refine ⟨exists_ofPattern_iff, fun _ shaped => (ofPattern_failsBy pattern).of_error shaped, ?_⟩
  intro shape shaped
  refine ⟨?_, ?_⟩
  · intro value
    rw [accepts_ofPattern shaped, Pattern.accepts_iff_matches]
  · rintro components rfl
    cases components with
    | nil => cases shaped
    | cons first rest =>
        obtain ⟨firstShape, firstShaped, shaped⟩ := ok_of_bind shaped
        obtain ⟨restShapes, restShaped, shaped⟩ := ok_of_bind shaped
        cases shaped
        exact ⟨_, rfl, .cons firstShaped (forall₂_of_ofChain_ofTuple restShaped)⟩

def boundPair : Pattern :=
  .ofTuple [.binding "inner" (.ofTuple [.int 1, .var "x"]), .ctor "Some" .wildcard]

theorem boundPair_shaped : boundPair.WellChained ∧
    ∀ value, (Shape.tuple [.tuple [.int 1, .wildcard], .ctor "Some" .wildcard]).accepts value = true ↔
      boundPair.Matches value := by
  obtain ⟨shaped_iff, _, shapes⟩ := ofPattern_decides_chains boundPair
  exact ⟨shaped_iff.mp ⟨_, rfl⟩, (shapes _ rfl).1⟩

example : ofPattern (.chain .unit (.binding "rest" (.ofTuple [.unit])))
    = .error (.unterminatedTuple (.binding "rest" (.ofTuple [.unit]))) := rfl

end Shape

end TypedMatch
