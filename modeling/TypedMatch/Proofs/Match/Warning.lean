import TypedMatch.Proofs.Match.Options

/-!
# What a warning says

A check adds at most one warning to those there are.  It adds one just if the match is not exhaustive, or the
options ask for something else that there is: values that need guards, or branches that no value selects.  The
first of these that holds gives the warning its code and its headline, and the notes list all of them that are
asked for.  No option is asked about a match that is not exhaustive, so none keeps back the warning about it,
not even a limit of no witnesses.
-/

set_option autoImplicit false

namespace TypedMatch

/-! ## Notes of a listing -/

namespace Listing

theorem notes_eq_nil_of_isEmpty {listing : Listing} (label : String) (empty : listing.isEmpty = true) :
    listing.notes label = [] := by
  rw [isEmpty, Bool.and_eq_true, List.isEmpty_iff, beq_iff_eq] at empty
  rw [notes, empty.1, empty.2]
  rfl

theorem notes_eq (label : String) (listing : Listing) : listing.notes label =
    listing.kept.map (fun witness => label ++ ": " ++ witness.text) ++
      if 0 < listing.omitted then [label ++ ": " ++ toString listing.omitted ++ " more case(s) not shown"]
      else [] := by
  simp only [notes, Nat.pos_iff_ne_zero, ite_not]

theorem Cuts.kept_nodup {listing : Listing} {limit : Nat} {all : List Witness} (cuts : listing.Cuts limit all)
    (distinct : all.Nodup) : listing.kept.Nodup := by
  rw [cuts.kept_eq]
  exact distinct.sublist (List.take_sublist _ _)

end Listing

/-! ## The warning of a verdict -/

namespace Verdict

/-- What there is to warn about under some options. -/
def Warrants (verdict : Verdict) (options : Options) : Prop :=
  verdict.isExhaustive = false ∨ (options.mentionGuarded = true ∧ verdict.needsGuards = true) ∨
    (options.mentionUnselected = true ∧ verdict.unselected ≠ [])

/-- A warning about everything in a verdict that some options ask for. -/
structure Announces (verdict : Verdict) (options : Options) (diagnostic : Diagnostic) : Prop where
  severity : diagnostic.severity = .warning
  span : diagnostic.span = verdict.span
  /-- A match that is not exhaustive is the first thing to say. -/
  unmatched : verdict.isExhaustive = false →
    diagnostic.code = some "W0001" ∧ diagnostic.message = "this pattern match is not exhaustive"
  guardedOnly : verdict.isExhaustive = true → options.mentionGuarded = true → verdict.needsGuards = true →
    diagnostic.code = some "W0002" ∧
      diagnostic.message = "this pattern match is exhaustive only if its guards hold"
  unselected : verdict.isExhaustive = true →
    ¬(options.mentionGuarded = true ∧ verdict.needsGuards = true) →
    diagnostic.code = some "W0003" ∧ diagnostic.message = "this pattern match has unused branches"
  notes : diagnostic.notes =
    verdict.unmatched.kept.map (fun witness => "non-exhaustive: " ++ witness.text) ++
    (if 0 < verdict.unmatched.omitted then
      ["non-exhaustive: " ++ toString verdict.unmatched.omitted ++ " more case(s) not shown"] else []) ++
    (if options.mentionGuarded = true then
      verdict.guardedOnly.kept.map (fun witness => "guard-unverified: " ++ witness.text) ++
      (if 0 < verdict.guardedOnly.omitted then
        ["guard-unverified: " ++ toString verdict.guardedOnly.omitted ++ " more case(s) not shown"] else [])
      else []) ++
    (if options.mentionUnselected = true then
      verdict.unselected.map (fun index => "pattern #" ++ toString (index + 1) ++ " is unused") else [])
  help : diagnostic.help =
    if verdict.isExhaustive = false then some "add branches for the missing cases or a final `_`" else none

variable {verdict : Verdict} {options : Options}

theorem mentionsGuarded_iff : verdict.mentionsGuarded options = true ↔
    options.mentionGuarded = true ∧ verdict.needsGuards = true := by
  rw [mentionsGuarded, Bool.and_eq_true]

theorem mentionsUnselected_iff : verdict.mentionsUnselected options = true ↔
    options.mentionUnselected = true ∧ verdict.unselected ≠ [] := by
  rw [mentionsUnselected, Bool.and_eq_true, Bool.not_eq_true', List.isEmpty_eq_false_iff]

/-- What is asked for but is not there has no notes, so the notes do not depend on which of the two it is that
keeps something back. -/
theorem notes_eq (verdict : Verdict) (options : Options) : verdict.notes options =
    verdict.unmatched.notes "non-exhaustive" ++
      (if options.mentionGuarded = true then verdict.guardedOnly.notes "guard-unverified" else []) ++
      (if options.mentionUnselected = true then
        verdict.unselected.map (fun index => "pattern #" ++ toString (index + 1) ++ " is unused") else []) := by
  have guarded : (if verdict.mentionsGuarded options then verdict.guardedOnly.notes "guard-unverified" else []) =
      if options.mentionGuarded = true then verdict.guardedOnly.notes "guard-unverified" else [] := by
    cases needs : verdict.needsGuards with
    | true => rw [mentionsGuarded, needs, Bool.and_true]
    | false =>
        have empty : verdict.guardedOnly.isEmpty = true := by simpa [needsGuards] using needs
        simp only [Listing.notes_eq_nil_of_isEmpty _ empty, ite_self]
  rw [notes, guarded]
  congr 1
  cases none : verdict.unselected with
  | nil => simp
  | cons first rest => simp [mentionsUnselected, none]

theorem topic?_of_not_exhaustive (holes : verdict.isExhaustive = false) :
    verdict.topic? options = some .unmatched := by
  rw [topic?, holes]
  rfl

theorem topic?_of_needsGuards (exhaustive : verdict.isExhaustive = true)
    (mentions : verdict.mentionsGuarded options = true) : verdict.topic? options = some .guardedOnly := by
  rw [topic?, exhaustive, mentions]
  rfl

theorem topic?_of_neither (exhaustive : verdict.isExhaustive = true)
    (mentions : ¬verdict.mentionsGuarded options = true) : verdict.topic? options =
      if verdict.mentionsUnselected options = true then some .unselected else none := by
  rw [topic?, exhaustive, Bool.not_true, if_neg Bool.false_ne_true, if_neg mentions]

theorem isSome_topic? : (verdict.topic? options).isSome = true ↔ verdict.Warrants options := by
  rw [Warrants, ← mentionsGuarded_iff, ← mentionsUnselected_iff]
  cases exhaustive : verdict.isExhaustive with
  | false => simp [topic?_of_not_exhaustive exhaustive]
  | true =>
      by_cases mentions : verdict.mentionsGuarded options = true
      · simp [topic?_of_needsGuards exhaustive mentions, mentions]
      · simp [topic?_of_neither exhaustive mentions, mentions]

theorem diagnostic?_eq_none_iff : verdict.diagnostic? options = none ↔ ¬verdict.Warrants options := by
  rw [diagnostic?, Option.map_eq_none_iff, ← isSome_topic?, Bool.not_eq_true, Option.isSome_eq_false_iff,
    Option.isNone_iff_eq_none]

theorem announces_of_diagnostic? {diagnostic : Diagnostic}
    (warned : verdict.diagnostic? options = some diagnostic) : verdict.Announces options diagnostic := by
  obtain ⟨topic, first, rfl⟩ := Option.map_eq_some_iff.mp warned
  have unmatchedLabel : "non-exhaustive" ++ ": " = "non-exhaustive: " := by decide
  have guardedLabel : "guard-unverified" ++ ": " = "guard-unverified: " := by decide
  have lines := notes_eq verdict options
  rw [Listing.notes_eq, Listing.notes_eq, unmatchedLabel, guardedLabel] at lines
  constructor
  case severity => rfl
  case span => rfl
  case unmatched =>
    intro holes
    cases (topic?_of_not_exhaustive holes).symm.trans first
    exact ⟨rfl, rfl⟩
  case guardedOnly =>
    intro exhaustive asked needs
    cases (topic?_of_needsGuards exhaustive (mentionsGuarded_iff.mpr ⟨asked, needs⟩)).symm.trans first
    exact ⟨rfl, rfl⟩
  case unselected =>
    intro exhaustive neither
    rw [topic?_of_neither exhaustive (mt mentionsGuarded_iff.mp neither), Option.ite_none_right_eq_some] at first
    cases first.2
    exact ⟨rfl, rfl⟩
  case notes => exact lines
  case help => cases exhaustive : verdict.isExhaustive <;> rfl

/-- As a list of warnings to add, the warning of a verdict is empty or has one that announces everything, and it
is not empty just if there is something to warn about. -/
theorem added_announces (verdict : Verdict) (options : Options) :
    ((verdict.diagnostic? options).toList = [] ∨ ∃ diagnostic,
      (verdict.diagnostic? options).toList = [diagnostic] ∧ verdict.Announces options diagnostic) ∧
    ((verdict.diagnostic? options).toList ≠ [] ↔ verdict.Warrants options) := by
  have silent : verdict.diagnostic? options = none ↔ ¬verdict.Warrants options := diagnostic?_eq_none_iff
  cases warned : verdict.diagnostic? options with
  | none =>
      have quiet := silent.mp warned
      exact ⟨.inl rfl, fun nonempty => absurd rfl nonempty, fun warrants => absurd warrants quiet⟩
  | some diagnostic =>
      rw [warned] at silent
      have warrants : verdict.Warrants options := by simpa using silent
      exact ⟨.inr ⟨diagnostic, rfl, announces_of_diagnostic? warned⟩, fun _ => warrants,
        fun _ => List.cons_ne_nil _ _⟩

end Verdict

namespace Match

/-- What a check has added to the warnings there are, beside what it has found and its verdict. -/
structure Adds (subject : Match) (options : Options) (found : Findings) (verdict : Verdict)
    (added : List Diagnostic) : Prop where
  atMostOne : added = [] ∨ ∃ diagnostic, added = [diagnostic] ∧ verdict.Announces options diagnostic
  nonempty_iff : added ≠ [] ↔ verdict.Warrants options
  exhaustive_iff : verdict.isExhaustive = true ↔ found.gaps .unmatched = []
  needsGuards_iff : verdict.needsGuards = true ↔ found.gaps .guardedOnly ≠ []
  span : verdict.span = subject.span
  unmatched : verdict.unmatched.Cuts options.witnessLimit (found.gaps .unmatched)
  guardedOnly : verdict.guardedOnly.Cuts options.witnessLimit (found.gaps .guardedOnly)
  unmatched_nodup : verdict.unmatched.kept.Nodup
  guardedOnly_nodup : verdict.guardedOnly.kept.Nodup
  unselected_ascending : verdict.unselected.Pairwise (· < ·)
  mem_unselected_iff : ∀ index,
    index ∈ verdict.unselected ↔ index < subject.branches.length ∧ index ∉ found.reached
  /-- No option keeps back the warning about a gap. -/
  unsilenced : found.gaps .unmatched ≠ [] →
    ∃ diagnostic, added = [diagnostic] ∧ diagnostic.code = some "W0001"

/-- A check that fails reports nothing.  Any other adds no warning or one to those there are.  It adds one just
if something is a gap, or guards are asked about and needed, or unselected branches are asked about and there is
one, and that warning announces what its verdict lists: of either kind the first gaps up to the limit, each once,
and the number of the others, and in ascending order the branches that no value reaches.  That a gap is left
unmatched is reason enough under any options. -/
theorem warn_announces (subject : Match) (env : Environment) (level : Level) (store : Store)
    (options : Options) (warnings : List Diagnostic) :
    (∃ fault, subject.findings env level store = .error fault ∧
      subject.warn env level store options warnings = .error fault) ∨
    ∃ found verdict added grown,
      subject.findings env level store = .ok (found, grown) ∧
      subject.verdict env level store options = .ok (verdict, grown) ∧
      subject.warn env level store options warnings = .ok (verdict, warnings ++ added, grown) ∧
      subject.Adds options found verdict added := by
  rw [warn, verdict]
  cases runs : subject.findings env level store with
  | error fault => exact .inl ⟨fault, rfl, rfl⟩
  | ok result =>
      obtain ⟨found, grown⟩ := result
      let verdict : Verdict := .ofFindings subject.span options subject.branches.length found
      have cuts (kind : HoleKind) : (Listing.ofWitnesses options.witnessLimit
          (Verdict.witnessesOf kind found)).Cuts options.witnessLimit (found.gaps kind) :=
        Listing.cuts_ofWitnesses _ _
      have distinct (kind : HoleKind) : (found.gaps kind).Nodup := nodup_eraseDups _
      have exhaustive : verdict.isExhaustive = true ↔ found.gaps .unmatched = [] := by
        rw [← List.isEmpty_iff, ← (cuts .unmatched).isEmpty_eq]
        rfl
      have needsGuards : verdict.needsGuards = true ↔ found.gaps .guardedOnly ≠ [] := by
        rw [Ne, ← List.isEmpty_iff, ← (cuts .guardedOnly).isEmpty_eq, Bool.not_eq_true, ← Bool.not_eq_true']
        rfl
      obtain ⟨announced, nonempty⟩ := verdict.added_announces options
      have unsilenced (holes : found.gaps .unmatched ≠ []) : ∃ diagnostic,
          (verdict.diagnostic? options).toList = [diagnostic] ∧ diagnostic.code = some "W0001" := by
        have notExhaustive : verdict.isExhaustive = false := by
          rw [← Bool.not_eq_true, exhaustive]
          exact holes
        rcases announced with none | ⟨diagnostic, one, announces⟩
        · exact absurd none (nonempty.mpr (.inl notExhaustive))
        · exact ⟨diagnostic, one, (announces.unmatched notExhaustive).1⟩
      exact .inr ⟨found, verdict, (verdict.diagnostic? options).toList, grown, rfl, rfl, rfl,
        { atMostOne := announced
          nonempty_iff := nonempty
          exhaustive_iff := exhaustive
          needsGuards_iff := needsGuards
          span := rfl
          unmatched := cuts .unmatched
          guardedOnly := cuts .guardedOnly
          unmatched_nodup := (cuts .unmatched).kept_nodup (distinct _)
          guardedOnly_nodup := (cuts .guardedOnly).kept_nodup (distinct _)
          unselected_ascending := List.pairwise_lt_range.filter _
          mem_unselected_iff := by simp [verdict, Verdict.ofFindings]
          unsilenced := unsilenced }⟩

end Match

end TypedMatch
