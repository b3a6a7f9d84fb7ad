import TypedMatch.Proofs.Environment.Root
import TypedMatch.Value.Accepts

/-!
# Values, patterns and witnesses of a type

Which values a type has, which patterns and shapes may be matched against them, and which witnesses
are sketches of them.  Types are outlines here, and an environment says what they stand for.  A type
that no pattern can look into has sealed values only; integers are those of 64 bits.
-/

set_option autoImplicit false

namespace TypedMatch

/-- Whether an integer fits into 64 bits, one of them for the sign. -/
def IsWord (value : Int) : Prop := -2 ^ 63 ≤ value ∧ value < 2 ^ 63

instance (value : Int) : Decidable (IsWord value) :=
  inferInstanceAs (Decidable (-2 ^ 63 ≤ value ∧ value < 2 ^ 63))

/-- Whether no pattern can look into the values of a type with this root. -/
def Ty.IsSealed {Var : Type} : Ty Var → Prop
  | .base .unit | .base .bool | .base .int | .base .string => False
  | .list _ | .product _ | .data _ _ => False
  | _ => True

namespace Value

mutual

def Inhabits (env : Environment) : Value → Ty Unit → Prop
  | .unit, type => env.Root type (.base .unit)
  | .bool _, type => env.Root type (.base .bool)
  | .int value, type => IsWord value ∧ env.Root type (.base .int)
  | .str _, type => env.Root type (.base .string)
  | .nil, type => ∃ element, env.Root type (.list element)
  | .cons head tail, type =>
      ∃ element, env.Root type (.list element) ∧ head.Inhabits env element ∧
        tail.Inhabits env (.list element)
  | .tuple values, type =>
      ∃ components, env.Root type (.product components) ∧ InhabitsList env values components
  | .ctor name value, type => ∃ payload, env.Offers type name payload ∧ value.Inhabits env payload
  | .sealed _, type => ∃ root, env.Root type root ∧ root.IsSealed

def InhabitsList (env : Environment) : List Value → List (Ty Unit) → Prop
  | [], [] => True
  | value :: values, type :: types => value.Inhabits env type ∧ InhabitsList env values types
  | _, _ => False

end

end Value

namespace Pattern

mutual

def Fits (env : Environment) : Pattern → Ty Unit → Prop
  | .wildcard, _ => True
  | .var _, _ => True
  | .binding _ pattern, type => pattern.Fits env type
  | .unit, type => env.Root type (.base .unit)
  | .bool _, type => env.Root type (.base .bool)
  | .int value, type => IsWord value ∧ env.Root type (.base .int)
  | .str _, type => env.Root type (.base .string)
  | .nil, type => ∃ element, env.Root type (.list element)
  | .cons head tail, type =>
      ∃ element, env.Root type (.list element) ∧ head.Fits env element ∧
        tail.Fits env (.list element)
  | .chain first rest, type =>
      ∃ component components, env.Root type (.product (component :: components)) ∧
        first.Fits env component ∧ rest.FitsChain env components
  | .chainEnd, _ => False
  | .ctor name pattern, type => ∃ payload, env.Offers type name payload ∧ pattern.Fits env payload

/-- Whether the rest of a tuple's chain ends properly and fits the components that are left. -/
def FitsChain (env : Environment) : Pattern → List (Ty Unit) → Prop
  | .chainEnd, [] => True
  | .chain first rest, component :: components =>
      first.Fits env component ∧ rest.FitsChain env components
  | _, _ => False

end

end Pattern

namespace Shape

mutual

def Fits (env : Environment) : Shape → Ty Unit → Prop
  | .wildcard, _ => True
  | .unit, type => env.Root type (.base .unit)
  | .bool _, type => env.Root type (.base .bool)
  | .int value, type => IsWord value ∧ env.Root type (.base .int)
  | .str _, type => env.Root type (.base .string)
  | .nil, type => ∃ element, env.Root type (.list element)
  | .cons head tail, type =>
      ∃ element, env.Root type (.list element) ∧ head.Fits env element ∧
        tail.Fits env (.list element)
  | .tuple shapes, type =>
      ∃ components, env.Root type (.product components) ∧ FitsList env shapes components
  | .ctor name shape, type => ∃ payload, env.Offers type name payload ∧ shape.Fits env payload

def FitsList (env : Environment) : List Shape → List (Ty Unit) → Prop
  | [], [] => True
  | shape :: shapes, type :: types => shape.Fits env type ∧ FitsList env shapes types
  | _, _ => False

end

end Shape

namespace Witness

mutual

/-- Whether a witness is a sketch of values of a type.  A constructor stands without a payload where
its payload can only be the unit value, and with one otherwise. -/
def Sketches (env : Environment) : Witness → Ty Unit → Prop
  | .wildcard, _ => True
  | .unit, type => env.Root type (.base .unit)
  | .bool _, type => env.Root type (.base .bool)
  | .int value, type => IsWord value ∧ env.Root type (.base .int)
  | .str _, type => env.Root type (.base .string)
  | .nil, type => ∃ element, env.Root type (.list element)
  | .cons head tail, type =>
      ∃ element, env.Root type (.list element) ∧ head.Sketches env element ∧
        tail.Sketches env (.list element)
  | .tuple witnesses, type =>
      ∃ components, env.Root type (.product components) ∧ SketchesList env witnesses components
  | .constant name, type => env.Offers type name .unit
  | .applied name witness, type =>
      ∃ payload, env.Offers type name payload ∧ payload ≠ .unit ∧ witness.Sketches env payload

def SketchesList (env : Environment) : List Witness → List (Ty Unit) → Prop
  | [], [] => True
  | witness :: witnesses, type :: types =>
      witness.Sketches env type ∧ SketchesList env witnesses types
  | _, _ => False

end

end Witness

variable {env : Environment}

/-! ## Several values, shapes and witnesses -/

namespace Value

theorem InhabitsList.length_eq : ∀ {values : List Value} {types : List (Ty Unit)},
    InhabitsList env values types → values.length = types.length
  | [], [], _ => rfl
  | _ :: _, _ :: _, inhabit => congrArg (· + 1) inhabit.2.length_eq

theorem InhabitsList.append {values others : List Value} {types more : List (Ty Unit)}
    (inhabit : InhabitsList env values types) (othersInhabit : InhabitsList env others more) :
    InhabitsList env (values ++ others) (types ++ more) := by
  induction values generalizing types with
  | nil =>
      cases types with
      | nil => exact othersInhabit
      | cons type types => exact inhabit.elim
  | cons value values inductionHypothesis =>
      cases types with
      | nil => exact inhabit.elim
      | cons type types => exact ⟨inhabit.1, inductionHypothesis inhabit.2⟩

theorem InhabitsList.split {values : List Value} {types more : List (Ty Unit)}
    (inhabit : InhabitsList env values (types ++ more)) :
    ∃ parts others, values = parts ++ others ∧ InhabitsList env parts types ∧
      InhabitsList env others more := by
  induction types generalizing values with
  | nil => exact ⟨[], values, rfl, trivial, inhabit⟩
  | cons type types inductionHypothesis =>
      cases values with
      | nil => exact inhabit.elim
      | cons value values =>
          obtain ⟨parts, others, rfl, partsInhabit, othersInhabit⟩ := inductionHypothesis inhabit.2
          exact ⟨value :: parts, others, rfl, ⟨inhabit.1, partsInhabit⟩, othersInhabit⟩

end Value

namespace Shape

theorem FitsList.length_eq : ∀ {shapes : List Shape} {types : List (Ty Unit)},
    FitsList env shapes types → shapes.length = types.length
  | [], [], _ => rfl
  | _ :: _, _ :: _, fit => congrArg (· + 1) fit.2.length_eq

theorem FitsList.append {shapes others : List Shape} {types more : List (Ty Unit)}
    (fit : FitsList env shapes types) (othersFit : FitsList env others more) :
    FitsList env (shapes ++ others) (types ++ more) := by
  induction shapes generalizing types with
  | nil =>
      cases types with
      | nil => exact othersFit
      | cons type types => exact fit.elim
  | cons shape shapes inductionHypothesis =>
      cases types with
      | nil => exact fit.elim
      | cons type types => exact ⟨fit.1, inductionHypothesis fit.2⟩

theorem fitsList_replicate_wildcard (types : List (Ty Unit)) :
    FitsList env (List.replicate types.length .wildcard) types := by
  induction types with
  | nil => exact trivial
  | cons type types inductionHypothesis => exact ⟨trivial, inductionHypothesis⟩

theorem acceptsList_append {parts others : List Value} :
    ∀ {shapes : List Shape}, shapes.length = parts.length → ∀ more : List Shape,
      acceptsList (shapes ++ more) (parts ++ others)
        = (acceptsList shapes parts && acceptsList more others) := by
  induction parts with
  | nil =>
      intro shapes sameLength more
      rw [List.length_eq_zero_iff.mp sameLength]
      rfl
  | cons part parts inductionHypothesis =>
      intro shapes sameLength more
      cases shapes with
      | nil => cases sameLength
      | cons shape shapes =>
          simp only [List.cons_append, acceptsList, Bool.and_assoc,
            inductionHypothesis (Nat.succ.inj sameLength) more]

theorem acceptsList_replicate_wildcard (values : List Value) :
    acceptsList (List.replicate values.length .wildcard) values = true := by
  induction values with
  | nil => rfl
  | cons value values inductionHypothesis =>
      simp only [List.length_cons, List.replicate_succ, acceptsList, accepts, inductionHypothesis,
        Bool.and_self]

theorem acceptsList_length_eq : ∀ {shapes : List Shape} {values : List Value},
    acceptsList shapes values = true → shapes.length = values.length
  | [], [], _ => rfl
  | [], _ :: _, accepts => by cases accepts
  | _ :: _, [], accepts => by cases accepts
  | _ :: _, _ :: _, accepts => by
      rw [acceptsList, Bool.and_eq_true] at accepts
      exact congrArg (· + 1) (acceptsList_length_eq accepts.2)

mutual

/-- A pattern that fits a type has a shape, which fits the type as well. -/
theorem exists_ofPattern : ∀ {pattern : Pattern} {type : Ty Unit}, pattern.Fits env type →
    ∃ shape, ofPattern pattern = .ok shape ∧ shape.Fits env type
  | .wildcard, _, _ => ⟨.wildcard, rfl, trivial⟩
  | .var _, _, _ => ⟨.wildcard, rfl, trivial⟩
  | .binding _ inner, _, fits => @exists_ofPattern inner _ fits
  | .unit, _, fits => ⟨.unit, rfl, fits⟩
  | .bool value, _, fits => ⟨.bool value, rfl, fits⟩
  | .int value, _, fits => ⟨.int value, rfl, fits⟩
  | .str value, _, fits => ⟨.str value, rfl, fits⟩
  | .nil, _, fits => ⟨.nil, rfl, fits⟩
  | .cons head tail, _, ⟨element, stands, headFits, tailFits⟩ => by
      obtain ⟨headShape, headShaped, headShapeFits⟩ := exists_ofPattern headFits
      obtain ⟨tailShape, tailShaped, tailShapeFits⟩ := exists_ofPattern tailFits
      refine ⟨.cons headShape tailShape, ?_, element, stands, headShapeFits, tailShapeFits⟩
      rw [ofPattern, headShaped, tailShaped]
      rfl
  | .chain first rest, _, ⟨component, components, stands, firstFits, restFits⟩ => by
      obtain ⟨firstShape, firstShaped, firstShapeFits⟩ := exists_ofPattern firstFits
      obtain ⟨restShapes, restShaped, restShapesFit⟩ := exists_ofChain restFits
      refine ⟨.tuple (firstShape :: restShapes), ?_, component :: components, stands,
        firstShapeFits, restShapesFit⟩
      rw [ofPattern, firstShaped, restShaped]
      rfl
  | .ctor name inner, _, ⟨payload, offered, innerFits⟩ => by
      obtain ⟨shape, shaped, shapeFits⟩ := exists_ofPattern innerFits
      refine ⟨.ctor name shape, ?_, payload, offered, shapeFits⟩
      rw [ofPattern, shaped]
      rfl

theorem exists_ofChain : ∀ {chain : Pattern} {types : List (Ty Unit)}, chain.FitsChain env types →
    ∃ shapes, ofChain chain = .ok shapes ∧ FitsList env shapes types
  | .chainEnd, [], _ => ⟨[], rfl, trivial⟩
  | .chain first rest, _ :: _, fits => by
      obtain ⟨firstShape, firstShaped, firstShapeFits⟩ := exists_ofPattern fits.1
      obtain ⟨restShapes, restShaped, restShapesFit⟩ := exists_ofChain fits.2
      refine ⟨firstShape :: restShapes, ?_, firstShapeFits, restShapesFit⟩
      rw [ofChain, firstShaped, restShaped]
      rfl

end

end Shape

namespace Witness

theorem SketchesList.length_eq : ∀ {witnesses : List Witness} {types : List (Ty Unit)},
    SketchesList env witnesses types → witnesses.length = types.length
  | [], [], _ => rfl
  | _ :: _, _ :: _, sketch => congrArg (· + 1) sketch.2.length_eq

theorem SketchesList.split {witnesses : List Witness} {types more : List (Ty Unit)}
    (sketch : SketchesList env witnesses (types ++ more)) :
    SketchesList env (witnesses.take types.length) types ∧
      SketchesList env (witnesses.drop types.length) more := by
  induction types generalizing witnesses with
  | nil => exact ⟨trivial, sketch⟩
  | cons type types inductionHypothesis =>
      cases witnesses with
      | nil => exact sketch.elim
      | cons witness witnesses =>
          obtain ⟨first, others⟩ := inductionHypothesis sketch.2
          exact ⟨⟨sketch.1, first⟩, others⟩

theorem sketchesList_map_wildcard (types : List (Ty Unit)) :
    SketchesList env (types.map fun _ => .wildcard) types := by
  induction types with
  | nil => exact trivial
  | cons type types inductionHypothesis => exact ⟨trivial, inductionHypothesis⟩

theorem coversList_append {parts others : List Value} :
    ∀ {witnesses : List Witness}, witnesses.length = parts.length → ∀ more : List Witness,
      coversList (witnesses ++ more) (parts ++ others)
        = (coversList witnesses parts && coversList more others) := by
  induction parts with
  | nil =>
      intro witnesses sameLength more
      rw [List.length_eq_zero_iff.mp sameLength]
      rfl
  | cons part parts inductionHypothesis =>
      intro witnesses sameLength more
      cases witnesses with
      | nil => cases sameLength
      | cons witness witnesses =>
          simp only [List.cons_append, coversList, Bool.and_assoc,
            inductionHypothesis (Nat.succ.inj sameLength) more]

theorem coversList_length_eq : ∀ {witnesses : List Witness} {values : List Value},
    coversList witnesses values = true → witnesses.length = values.length
  | [], [], _ => rfl
  | [], _ :: _, covers => by cases covers
  | _ :: _, [], covers => by cases covers
  | _ :: _, _ :: _, covers => by
      rw [coversList, Bool.and_eq_true] at covers
      exact congrArg (· + 1) (coversList_length_eq covers.2)

end Witness

end TypedMatch
