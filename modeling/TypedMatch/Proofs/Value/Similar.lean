import TypedMatch.Proofs.Value.Typing

/-!
# Values that differ in literals only

Where a match mentions finitely many integers and strings, all others are treated alike, and one of
them stands for the rest.  Two values are similar if they differ in nothing but integers and strings.
Of a type without either, similar values are equal.
-/

set_option autoImplicit false

namespace TypedMatch

namespace Value

mutual

/-- Whether two values differ at most in integers and strings. -/
def Similar : Value → Value → Prop
  | .unit, .unit => True
  | .bool value, .bool other => value = other
  | .int _, .int _ => True
  | .str _, .str _ => True
  | .nil, .nil => True
  | .cons head tail, .cons first rest => head.Similar first ∧ tail.Similar rest
  | .tuple values, .tuple others => SimilarList values others
  | .ctor name payload, .ctor tag carried => name = tag ∧ payload.Similar carried
  | .sealed mark, .sealed other => mark = other
  | _, _ => False
termination_by structural value => value

def SimilarList : List Value → List Value → Prop
  | [], [] => True
  | value :: values, other :: others => value.Similar other ∧ SimilarList values others
  | _, _ => False

end

mutual

theorem Similar.refl : ∀ value : Value, value.Similar value
  | .unit | .int _ | .str _ | .nil => trivial
  | .bool _ | .sealed _ => rfl
  | .cons head tail => ⟨.refl head, .refl tail⟩
  | .tuple values => SimilarList.refl values
  | .ctor _ payload => ⟨rfl, .refl payload⟩

theorem SimilarList.refl : ∀ values : List Value, SimilarList values values
  | [] => trivial
  | value :: values => ⟨.refl value, .refl values⟩

end

theorem SimilarList.length_eq : ∀ {values others : List Value},
    SimilarList values others → values.length = others.length
  | [], [], _ => rfl
  | _ :: _, _ :: _, similar => congrArg (· + 1) similar.2.length_eq

theorem SimilarList.of_append {first second : List Value} :
    ∀ {left : List Value}, first.length = left.length → ∀ {right : List Value},
      SimilarList (first ++ second) (left ++ right) →
        SimilarList first left ∧ SimilarList second right := by
  induction first with
  | nil =>
      intro left sameLength right similar
      rw [List.length_eq_zero_iff.mp sameLength.symm] at similar ⊢
      exact ⟨trivial, similar⟩
  | cons value first inductionHypothesis =>
      intro left sameLength right similar
      cases left with
      | nil => cases sameLength
      | cons other left =>
          obtain ⟨firstSimilar, secondSimilar⟩ :=
            inductionHypothesis (Nat.succ.inj sameLength) similar.2
          exact ⟨⟨similar.1, firstSimilar⟩, secondSimilar⟩

end Value

def Environment.HasLiterals (env : Environment) (type : Ty Unit) : Prop :=
  ∃ found, env.Reaches type found ∧ (env.Root found (.base .int) ∨ env.Root found (.base .string))

theorem Environment.HasLiterals.of_reaches {env : Environment} {type found : Ty Unit}
    (reaches : env.Reaches type found) (hasLiterals : env.HasLiterals found) :
    env.HasLiterals type := by
  obtain ⟨other, further, isLiteral⟩ := hasLiterals
  exact ⟨other, reaches.trans further, isLiteral⟩

namespace Value

variable {env : Environment}

mutual

theorem Similar.eq_of_not_hasLiterals : ∀ {value other : Value} {type : Ty Unit},
    value.Similar other → value.Inhabits env type → ¬ env.HasLiterals type → value = other
  | .unit, .unit, _, _, _, _ => rfl
  | .nil, .nil, _, _, _, _ => rfl
  | .sealed _, .sealed _, _, same, _, _ => congrArg Value.sealed same
  | .bool _, .bool _, _, same, _, _ => congrArg Value.bool same
  | .int _, .int _, type, _, inhabits, literalFree =>
      absurd ⟨type, .self, .inl inhabits.2⟩ literalFree
  | .str _, .str _, type, _, inhabits, literalFree =>
      absurd ⟨type, .self, .inr inhabits⟩ literalFree
  | .cons head tail, .cons first rest, _, similar, inhabits, literalFree => by
      obtain ⟨element, stands, headInhabits, tailInhabits⟩ := inhabits
      have elementFree : ¬ env.HasLiterals element := fun hasLiterals =>
        literalFree (hasLiterals.of_reaches (.element .self stands))
      have listFree : ¬ env.HasLiterals (.list element) := fun hasLiterals =>
        literalFree (hasLiterals.of_reaches (.root .self stands))
      rw [similar.1.eq_of_not_hasLiterals headInhabits elementFree,
        similar.2.eq_of_not_hasLiterals tailInhabits listFree]
  | .tuple values, .tuple others, _, similar, inhabits, literalFree => by
      obtain ⟨components, stands, valuesInhabit⟩ := inhabits
      have componentsFree : ∀ component ∈ components, ¬ env.HasLiterals component :=
        fun component among hasLiterals =>
          literalFree (hasLiterals.of_reaches (.component .self stands among))
      rw [SimilarList.eq_of_not_hasLiterals similar valuesInhabit componentsFree]
  | .ctor name payload, .ctor tag carried, _, similar, inhabits, literalFree => by
      obtain ⟨payloadType, offered, payloadInhabits⟩ := inhabits
      have payloadFree : ¬ env.HasLiterals payloadType := fun hasLiterals =>
        literalFree (hasLiterals.of_reaches (.payload .self offered))
      rw [similar.1, similar.2.eq_of_not_hasLiterals payloadInhabits payloadFree]

theorem SimilarList.eq_of_not_hasLiterals : ∀ {values others : List Value} {types : List (Ty Unit)},
    SimilarList values others → InhabitsList env values types →
    (∀ type ∈ types, ¬ env.HasLiterals type) → values = others
  | [], [], _, _, _, _ => rfl
  | value :: values, other :: others, type :: types, similar, inhabit, literalFree => by
      rw [similar.1.eq_of_not_hasLiterals inhabit.1 (literalFree type (.head _)),
        similar.2.eq_of_not_hasLiterals inhabit.2 fun type among => literalFree type (.tail _ among)]

end

end Value

end TypedMatch
