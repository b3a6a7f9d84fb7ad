import TypedMatch.Coverage.Witness
import TypedMatch.Pattern.Shape
import TypedMatch.Value.Basic

/-!
# Which values a pattern accepts

What patterns, shapes and witnesses mean.  A pattern accepts a value if a branch with that pattern may
be taken for it; a witness covers a value if it may be filled in to that value.  The main statement
is `accepts_ofPattern`: a pattern and its shape accept the same values.
-/

set_option autoImplicit false

namespace TypedMatch

namespace Pattern

mutual

def accepts : Pattern → Value → Bool
  | .wildcard, _ => true
  | .var _, _ => true
  | .binding _ pattern, value => pattern.accepts value
  | .unit, .unit => true
  | .bool expected, .bool value => expected == value
  | .int expected, .int value => expected == value
  | .str expected, .str value => expected == value
  | .nil, .nil => true
  | .cons head tail, .cons first rest => head.accepts first && tail.accepts rest
  | .chain first rest, .tuple (value :: more) => first.accepts value && rest.acceptsChain more
  | .ctor expected payload, .ctor name value => expected == name && payload.accepts value
  | _, _ => false
termination_by structural pattern => pattern

def acceptsChain : Pattern → List Value → Bool
  | .chainEnd, [] => true
  | .chain component next, value :: more => component.accepts value && next.acceptsChain more
  | _, _ => false

end

end Pattern

namespace Shape

mutual

def accepts : Shape → Value → Bool
  | .wildcard, _ => true
  | .unit, .unit => true
  | .bool expected, .bool value => expected == value
  | .int expected, .int value => expected == value
  | .str expected, .str value => expected == value
  | .nil, .nil => true
  | .cons head tail, .cons first rest => head.accepts first && tail.accepts rest
  | .tuple components, .tuple values => acceptsList components values
  | .ctor expected payload, .ctor name value => expected == name && payload.accepts value
  | _, _ => false
termination_by structural shape => shape

def acceptsList : List Shape → List Value → Bool
  | [], [] => true
  | shape :: shapes, value :: values => shape.accepts value && acceptsList shapes values
  | _, _ => false

end

mutual

/-- A pattern and its shape accept the same values. -/
theorem accepts_ofPattern : ∀ {pattern : Pattern} {shape : Shape},
    ofPattern pattern = .ok shape → ∀ value, shape.accepts value = pattern.accepts value
  | .wildcard, _, rfl, value => by simp only [accepts, Pattern.accepts]
  | .var _, _, rfl, value => by simp only [accepts, Pattern.accepts]
  | .binding _ inner, shape, shaped, value => by
      rw [Pattern.accepts]
      exact @accepts_ofPattern inner shape shaped value
  | .unit, _, rfl, value => by cases value <;> rfl
  | .bool _, _, rfl, value => by cases value <;> rfl
  | .int _, _, rfl, value => by cases value <;> rfl
  | .str _, _, rfl, value => by cases value <;> rfl
  | .nil, _, rfl, value => by cases value <;> rfl
  | .cons head tail, shape, shaped, value => by
      obtain ⟨headShape, headShaped, shaped⟩ := ok_of_bind shaped
      obtain ⟨tailShape, tailShaped, shaped⟩ := ok_of_bind shaped
      cases shaped
      cases value <;>
        simp only [accepts, Pattern.accepts, accepts_ofPattern headShaped,
          accepts_ofPattern tailShaped]
  | .chain first rest, shape, shaped, value => by
      obtain ⟨firstShape, firstShaped, shaped⟩ := ok_of_bind shaped
      obtain ⟨restShapes, restShaped, shaped⟩ := ok_of_bind shaped
      cases shaped
      cases value with
      | tuple values =>
          cases values <;>
            simp only [accepts, acceptsList, Pattern.accepts, accepts_ofPattern firstShaped,
              acceptsList_ofChain restShaped]
      | _ => simp only [accepts, Pattern.accepts]
  | .chainEnd, _, shaped, _ => by cases shaped
  | .ctor name payload, shape, shaped, value => by
      obtain ⟨payloadShape, payloadShaped, shaped⟩ := ok_of_bind shaped
      cases shaped
      cases value <;>
        simp only [accepts, Pattern.accepts, accepts_ofPattern payloadShaped]

theorem acceptsList_ofChain : ∀ {chain : Pattern} {shapes : List Shape},
    ofChain chain = .ok shapes → ∀ values, acceptsList shapes values = chain.acceptsChain values
  | .chainEnd, _, rfl, values => by cases values <;> rfl
  | .chain component next, shapes, shaped, values => by
      obtain ⟨componentShape, componentShaped, shaped⟩ := ok_of_bind shaped
      obtain ⟨nextShapes, nextShaped, shaped⟩ := ok_of_bind shaped
      cases shaped
      cases values <;>
        simp only [acceptsList, Pattern.acceptsChain, accepts_ofPattern componentShaped,
          acceptsList_ofChain nextShaped]

end

end Shape

namespace Witness

mutual

/-- Whether a value is one of those that a witness sketches. -/
def covers : Witness → Value → Bool
  | .wildcard, _ => true
  | .unit, .unit => true
  | .bool expected, .bool value => expected == value
  | .int expected, .int value => expected == value
  | .str expected, .str value => expected == value
  | .nil, .nil => true
  | .cons head tail, .cons first rest => head.covers first && tail.covers rest
  | .tuple components, .tuple values => coversList components values
  | .constant expected, .ctor name _ => expected == name
  | .applied expected payload, .ctor name value => expected == name && payload.covers value
  | _, _ => false
termination_by structural witness => witness

def coversList : List Witness → List Value → Bool
  | [], [] => true
  | witness :: witnesses, value :: values => witness.covers value && coversList witnesses values
  | _, _ => false

end

end Witness

end TypedMatch
