import TypedMatch.Proofs.Coverage.WitnessText
import TypedMatch.Proofs.Match.Warning

/-!
# No two notes are the same

The notes of a warning say of a witness what it is by its text alone.  Where the witnesses are legible, that is
enough: two of them have the same text only if they are the same, so that a note says which witness it is about
and in which listing it stands.  Nor is any witness written like the number of those left out.
-/

set_option autoImplicit false

namespace TypedMatch

/-! ## Texts -/

namespace Witness

variable {first second : Witness}

theorem eq_of_text_eq (legible : first.legible = true) (secondLegible : second.legible = true)
    (same : first.text = second.text) : first = second := by
  have nothing : Ends [] := fun _ among => nomatch among
  have separable := separable_of_parts legible (separable_parts first legible)
  exact (separable secondLegible nothing nothing (congrArg (·.toList ++ []) same)).1

theorem text_ne_count (legible : first.legible = true) (count : Nat) {character : Char} {rest : List Char}
    (noColon : character ≠ ':') : first.text.toList ≠ (toString count).toList ++ ' ' :: character :: rest := by
  intro same
  change _ = (int count).piece.text ++ _ at same
  have pauses : Pauses (' ' :: character :: rest) := pauses_cons.mpr (by decide)
  cases cell : first.isCons with
  | false =>
      have written := text_piece first
      rw [cell, if_neg Bool.false_ne_true] at written
      rw [← written, ← List.append_nil first.piece.text] at same
      have nothing : Pauses [] := fun _ among => nomatch among
      have sameRest := (piece_append_inj legible (separable_parts first legible) rfl nothing pauses same).2
      exact absurd sameRest.symm (List.cons_ne_nil _ _)
  | true =>
      cases first with
      | cons head tail =>
          rw [Witness.legible, Bool.and_eq_true] at legible
          rw [toList_text_cons] at same
          have sameRest := (piece_append_inj legible.1 (separable_parts head legible.1) rfl
            (pauses_cons.mpr (by decide)) pauses same).2
          exact absurd (List.cons.inj (List.cons.inj sameRest).2).1.symm noColon
      | _ => cases cell

end Witness

/-! ## Notes of one listing -/

namespace Listing

def labels : List String := ["non-exhaustive", "guard-unverified"]

theorem toList_labels {label : String} (among : label ∈ labels) :
    ∃ rest, label.toList = (if label = "non-exhaustive" then 'n' else 'g') :: rest := by
  rcases List.mem_cons.mp among with rfl | among
  · exact ⟨_, rfl⟩
  · rw [List.mem_singleton.mp among]
    exact ⟨_, rfl⟩

theorem label_eq_of_append {label other : String} {rest more : List Char} (among : label ∈ labels)
    (otherAmong : other ∈ labels) (same : label.toList ++ rest = other.toList ++ more) : label = other := by
  obtain ⟨behind, written⟩ := toList_labels among
  obtain ⟨otherBehind, otherWritten⟩ := toList_labels otherAmong
  rw [written, otherWritten] at same
  have sameFirst := (List.cons.inj same).1
  have determined : ∀ label ∈ labels, ∀ other ∈ labels,
      (if label = "non-exhaustive" then 'n' else 'g') = (if other = "non-exhaustive" then 'n' else 'g') →
        label = other := by decide
  exact determined label among other otherAmong sameFirst

theorem text_eq_of_note_eq {label : String} {first second : Witness}
    (same : label ++ ": " ++ first.text = label ++ ": " ++ second.text) : first.text = second.text := by
  have characters := congrArg String.toList same
  simp only [String.toList_append, List.append_assoc] at characters
  exact String.toList_inj.mp (List.append_cancel_left (List.append_cancel_left characters))

theorem notes_nodup {listing : Listing} (label : String)
    (legible : ∀ witness ∈ listing.kept, witness.legible = true) (distinct : listing.kept.Nodup) :
    (listing.notes label).Nodup := by
  rw [notes_eq, List.nodup_append]
  refine ⟨?_, by split <;> simp, ?_⟩
  · refine distinct.map_on ?_
    intro first among second secondAmong same
    exact Witness.eq_of_text_eq (legible first among) (legible second secondAmong) (text_eq_of_note_eq same)
  · intro note noted count counted same
    obtain ⟨witness, among, rfl⟩ := List.mem_map.mp noted
    split at counted
    · rw [List.mem_singleton.mp counted] at same
      have characters := congrArg String.toList same
      simp only [String.toList_append, List.append_assoc] at characters
      exact Witness.text_ne_count (legible witness among) listing.omitted (by decide)
        (List.append_cancel_left (List.append_cancel_left characters))
    · cases counted

end Listing

/-- A legible witness can be read off its text, and off its note together with the listing that it stands in: two
witnesses with the same text are the same, and if two notes are the same, then so are their witnesses and
their labels. -/
theorem Witness.note_unambiguous (first second : Witness) (legible : first.legible = true)
    (secondLegible : second.legible = true) :
    (first.text = second.text → first = second) ∧
      ∀ label ∈ Listing.labels, ∀ other ∈ Listing.labels,
        label ++ ": " ++ first.text = other ++ ": " ++ second.text → label = other ∧ first = second := by
  refine ⟨eq_of_text_eq legible secondLegible, ?_⟩
  intro label among other otherAmong same
  have characters := congrArg String.toList same
  simp only [String.toList_append, List.append_assoc] at characters
  obtain rfl := Listing.label_eq_of_append among otherAmong characters
  exact ⟨rfl, eq_of_text_eq legible secondLegible (Listing.text_eq_of_note_eq same)⟩

namespace Witness

/-- A pair whose first component has in it what could pass for the end of one component and the beginning of
another. -/
def quotedPair : Witness := applied "Pair" (tuple [str "a\", \"b", cons nil wildcard])

def quotedTriple : Witness := applied "Pair" (tuple [str "a", str "b", cons nil wildcard])

theorem quotedPair_told_apart : quotedPair.legible = true ∧ quotedTriple.legible = true ∧
    quotedPair.text ≠ quotedTriple.text ∧
    "non-exhaustive" ++ ": " ++ quotedPair.text ≠ "non-exhaustive" ++ ": " ++ quotedTriple.text := by
  have legible : quotedPair.legible = true := by decide
  have tripleLegible : quotedTriple.legible = true := by decide
  have different : quotedPair ≠ quotedTriple := by decide
  obtain ⟨byText, byNote⟩ := note_unambiguous quotedPair quotedTriple legible tripleLegible
  exact ⟨legible, tripleLegible, mt byText different,
    fun same => different (byNote _ (.head _) _ (.head _) same).2⟩

end Witness

/-! ## Notes of a warning -/

theorem Listing.eq_append_of_mem_notes {listing : Listing} {label note : String}
    (among : note ∈ listing.notes label) : ∃ rest, note.toList = label.toList ++ rest := by
  rw [notes_eq, List.mem_append] at among
  rcases among with kept | omitted
  · obtain ⟨witness, -, rfl⟩ := List.mem_map.mp kept
    exact ⟨_, by simp only [String.toList_append, List.append_assoc]; rfl⟩
  · split at omitted
    · rw [List.mem_singleton.mp omitted]
      exact ⟨_, by simp only [String.toList_append, List.append_assoc]; rfl⟩
    · cases omitted

theorem Listing.note_ne_unused {listing : Listing} {label note : String} (known : label ∈ labels)
    (among : note ∈ listing.notes label) (index : Nat) :
    note ≠ "pattern #" ++ toString (index + 1) ++ " is unused" := by
  rintro rfl
  obtain ⟨behind, written⟩ := toList_labels known
  obtain ⟨rest, split⟩ := eq_append_of_mem_notes among
  have begins : ("pattern #" ++ toString (index + 1) ++ " is unused").toList.head? = some 'p' := by
    simp [String.toList_append]
  rw [split, written] at begins
  have first := Option.some.inj begins
  split at first <;> exact absurd first (by decide)

theorem unused_injective :
    Function.Injective fun index : Nat => "pattern #" ++ toString (index + 1) ++ " is unused" := by
  intro index other same
  have characters := congrArg String.toList same
  simp only [String.toList_append, List.append_assoc] at characters
  have blank : Text.Stops Char.isDigit " is unused".toList := fun first among => by
    cases among
    rfl
  exact Nat.add_right_cancel
    (Text.toString_append_inj blank blank (List.append_cancel_left characters)).1

/-- If the witnesses that are kept are legible and there is none twice in a listing, no two notes are the same. -/
theorem Verdict.notes_nodup {verdict : Verdict} (options : Options)
    (legible : ∀ witness ∈ verdict.unmatched.kept ++ verdict.guardedOnly.kept, witness.legible = true)
    (distinct : verdict.unmatched.kept.Nodup) (guardedDistinct : verdict.guardedOnly.kept.Nodup)
    (unselectedDistinct : verdict.unselected.Nodup) : (verdict.notes options).Nodup := by
  rw [List.forall_mem_append] at legible
  have unmatchedNotes := Listing.notes_nodup "non-exhaustive" legible.1 distinct
  have guardedNotes := Listing.notes_nodup "guard-unverified" legible.2 guardedDistinct
  have apart : ∀ note ∈ verdict.unmatched.notes "non-exhaustive",
      ∀ other ∈ verdict.guardedOnly.notes "guard-unverified", note ≠ other := by
    rintro note among _ otherAmong rfl
    obtain ⟨rest, written⟩ := Listing.eq_append_of_mem_notes among
    obtain ⟨more, otherWritten⟩ := Listing.eq_append_of_mem_notes otherAmong
    have sameLabel := Listing.label_eq_of_append (by decide) (by decide) (written.symm.trans otherWritten)
    exact absurd sameLabel (by decide)
  rw [notes_eq]
  refine List.nodup_append.mpr ⟨List.nodup_append.mpr ⟨unmatchedNotes, ?_, ?_⟩, ?_, ?_⟩
  · split
    · exact guardedNotes
    · exact List.nodup_nil
  · intro note among other otherAmong
    split at otherAmong
    · exact apart note among other otherAmong
    · cases otherAmong
  · split
    · exact unselectedDistinct.map unused_injective
    · exact List.nodup_nil
  · intro note among other otherAmong
    split at otherAmong
    · obtain ⟨index, -, rfl⟩ := List.mem_map.mp otherAmong
      rcases List.mem_append.mp among with unmatched | guarded
      · exact Listing.note_ne_unused (.head _) unmatched index
      · split at guarded
        · exact Listing.note_ne_unused (.tail _ (.head _)) guarded index
        · cases guarded
    · cases otherAmong

/-- The verdict on a match keeps no witness twice, so if they are legible, no two notes of its warning are the
same. -/
theorem Match.notes_nodup {subject : Match} {env : Environment} {level : Level} {store grown : Store}
    {options : Options} {verdict : Verdict}
    (runs : subject.verdict env level store options = .ok (verdict, grown))
    (legible : ∀ witness ∈ verdict.unmatched.kept ++ verdict.guardedOnly.kept, witness.legible = true) :
    (verdict.notes options).Nodup := by
  rw [Match.verdict] at runs
  obtain ⟨⟨found, after⟩, -, given⟩ := ok_of_bind runs
  cases given
  have kept (kind : HoleKind) : (Listing.ofWitnesses options.witnessLimit
      (Verdict.witnessesOf kind found)).kept.Nodup :=
    (Listing.cuts_ofWitnesses _ _).kept_nodup (nodup_eraseDups _)
  exact Verdict.notes_nodup options legible (kept .unmatched) (kept .guardedOnly)
    (List.nodup_range.filter _)

end TypedMatch
