import TypedMatch.Coverage.Cover
import TypedMatch.Proofs.Store.Minting

/-!
# A check only mints

The store that a check leaves is the one that it was given with some free variables more.  This holds for
whatever is checked, as long as the check comes to an end at all: every step on the way either reads the
store or instantiates the payload of a constructor or the body of an alias.
-/

set_option autoImplicit false

namespace TypedMatch

variable {env : Environment} {level : Level} {store grown : Store}

/-- Whether a store is another one that has minted some free variables since. -/
def Store.HasMinted (store grown : Store) : Prop := ∃ count, store.Mints count grown

namespace Store.HasMinted

variable {last : Store}

theorem refl (store : Store) : store.HasMinted store := ⟨0, .none⟩

theorem trans (first : store.HasMinted grown) (second : grown.HasMinted last) :
    store.HasMinted last := by
  obtain ⟨count, mints⟩ := first
  obtain ⟨more, further⟩ := second
  exact ⟨count + more, mints.trans further⟩

end Store.HasMinted

theorem Environment.expandWithin_mints {fuel : Nat} {type root : Ty MetaVar}
    (expands : env.expandWithin level fuel store type = .ok (root, grown)) :
    store.HasMinted grown := by
  induction fuel generalizing store type with
  | zero =>
      rw [expandWithin] at expands
      obtain ⟨found, _, expands⟩ := ok_of_bind expands
      dsimp only at expands
      split at expands
      · cases expands
        exact .refl _
      · split at expands
        · cases expands
        · cases expands
  | succ fuel inductionHypothesis =>
      rw [expandWithin] at expands
      obtain ⟨found, _, expands⟩ := ok_of_bind expands
      dsimp only at expands
      split at expands
      · cases expands
        exact .refl _
      · split at expands
        · cases expands
        · obtain ⟨⟨body, next⟩, applies, expands⟩ := ok_of_bind expands
          exact .trans (Store.apply_mints applies) (inductionHypothesis expands)

theorem Environment.expand_mints {type root : Ty MetaVar}
    (expands : env.expand level store type = .ok (root, grown)) : store.HasMinted grown := by
  rw [expand] at expands
  obtain ⟨found, _, expands⟩ := ok_of_bind expands
  split at expands
  · cases expands
    exact .refl _
  · exact expandWithin_mints expands

theorem constructorHeads_mints {args : List (Ty MetaVar)} {constructors : List Constructor}
    {heads : List (Head MetaVar)}
    (runs : constructorHeads level args store constructors = .ok (heads, grown)) :
    store.HasMinted grown := by
  induction constructors generalizing store heads grown with
  | nil =>
      cases runs
      exact .refl _
  | cons constructor rest inductionHypothesis =>
      rw [constructorHeads] at runs
      obtain ⟨⟨payload, first⟩, applies, runs⟩ := ok_of_bind runs
      obtain ⟨root, _, runs⟩ := ok_of_bind runs
      obtain ⟨⟨more, last⟩, further, runs⟩ := ok_of_bind runs
      cases runs
      exact .trans (Store.apply_mints applies) (inductionHypothesis further)

theorem Environment.heads_mints {type : Ty MetaVar} {column : List Shape}
    {heads : List (Head MetaVar)}
    (runs : env.heads level store type column = .ok (heads, grown)) : store.HasMinted grown := by
  rw [Environment.heads] at runs
  obtain ⟨⟨root, expanded⟩, expands, runs⟩ := ok_of_bind runs
  have minted := expand_mints expands
  refine minted.trans ?_
  cases root with
  | base kind =>
      cases kind with
      | unit | bool | int | string =>
          cases runs
          exact .refl _
      | _ =>
          obtain ⟨_, _, runs⟩ := ok_of_bind runs
          cases runs
  | list element =>
      cases runs
      exact .refl _
  | product components =>
      dsimp only at runs
      split at runs
      · cases runs
      · cases runs
        exact .refl _
  | data con args =>
      dsimp only at runs
      split at runs
      · cases runs
      · split at runs
        · cases runs
        · exact constructorHeads_mints runs
  | _ =>
      obtain ⟨_, _, runs⟩ := ok_of_bind runs
      cases runs

theorem coverHeads_mints {rows : List Row} {rest : List (Ty MetaVar)}
    {asks : rows.all Row.skips = false} {heads : List (Head MetaVar)}
    (each : ∀ (head : Head MetaVar) (store grown : Store) (findings : Findings),
      cover env level store (keptRows head rows) (head.slots ++ rest) = .ok (findings, grown) →
      store.HasMinted grown) {findings : Findings}
    (runs : coverHeads env level store rows rest heads asks = .ok (findings, grown)) :
    store.HasMinted grown := by
  induction heads generalizing store findings with
  | nil =>
      rw [coverHeads] at runs
      cases runs
      exact .refl _
  | cons head more inductionHypothesis =>
      rw [coverHeads] at runs
      obtain ⟨⟨inner, next⟩, first, runs⟩ := ok_of_bind runs
      obtain ⟨⟨others, last⟩, further, runs⟩ := ok_of_bind runs
      cases runs
      exact .trans (each head store next inner first) (inductionHypothesis further)

theorem cover_mints (store grown : Store) (rows : List Row) (slots : List (Ty MetaVar))
    (findings : Findings) (runs : cover env level store rows slots = .ok (findings, grown)) :
    store.HasMinted grown := by
  match slots with
  | [] =>
      rw [cover] at runs
      cases runs
      exact .refl _
  | slot :: rest =>
      by_cases empty : rows.isEmpty = true
      · rw [cover, if_pos empty] at runs
        cases runs
        exact .refl _
      · rw [cover, if_neg empty] at runs
        cases skips : rows.all Row.skips with
        | false =>
            rw [dif_neg (by simp [skips])] at runs
            obtain ⟨⟨heads, next⟩, listed, runs⟩ := ok_of_bind runs
            refine .trans (Environment.heads_mints listed) (coverHeads_mints ?_ runs)
            intro head before after inner first
            exact cover_mints before after (keptRows head rows) (head.slots ++ rest) inner first
        | true =>
            rw [dif_pos skips] at runs
            obtain ⟨⟨inner, last⟩, first, runs⟩ := ok_of_bind runs
            cases runs
            exact cover_mints store grown (rows.map Row.tail) rest inner first
termination_by (openNodes rows, slots.length)
decreasing_by
  · exact .left _ _ (openNodes_keptRows_lt head skips)
  · rw [openNodes_map_tail skips]
    exact .right _ (Nat.lt_succ_self _)

end TypedMatch
