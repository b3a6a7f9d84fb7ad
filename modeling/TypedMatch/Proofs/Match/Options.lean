import TypedMatch.Proofs.Match.Guards

/-!
# What options change

Options have no part in what a check finds out.  Under any two of them a check fails in the same way, or it
leaves the same store and gives verdicts that differ only in where their listings stop: each keeps the first
gaps of its kind, up to the limit, and counts the others.  So whatever is read off a listing as a whole does
not depend on the limit, not even where nothing may be kept.
-/

set_option autoImplicit false

namespace TypedMatch

namespace Listing

/-- Whether a listing keeps the first of all witnesses, up to a limit, and counts the others. -/
structure Cuts (listing : Listing) (limit : Nat) (all : List Witness) : Prop where
  kept_eq : listing.kept = all.take (min limit all.length)
  total : listing.kept.length + listing.omitted = all.length

variable {listing : Listing} {limit : Nat} {all : List Witness}

theorem cuts_ofWitnesses (limit : Nat) (witnesses : List Witness) :
    (ofWitnesses limit witnesses).Cuts limit witnesses.eraseDups where
  kept_eq := List.take_eq_take_min
  total := by
    simp only [ofWitnesses, List.length_take]
    omega

example : ofWitnesses 0 [.nil, .wildcard, .nil] = ⟨[], 2⟩ := by decide

theorem Cuts.isEmpty_eq (cuts : listing.Cuts limit all) : listing.isEmpty = all.isEmpty := by
  have total := cuts.total
  rw [Bool.eq_iff_iff, isEmpty, Bool.and_eq_true, List.isEmpty_iff, List.isEmpty_iff, beq_iff_eq]
  constructor
  · rintro ⟨noneKept, noneOmitted⟩
    rw [noneKept, noneOmitted] at total
    exact List.length_eq_zero_iff.mp total.symm
  · rintro rfl
    rw [List.length_nil] at total
    exact ⟨List.length_eq_zero_iff.mp (by omega), by omega⟩

end Listing

/-- Whether two verdicts under two options tell of the same findings and differ only in where their listings
stop. -/
structure Verdict.DiffersInLimits (verdict : Verdict) (found : Findings) (options other : Options)
    (second : Verdict) : Prop where
  selected : verdict.selected = second.selected
  unselected : verdict.unselected = second.unselected
  isExhaustive : verdict.isExhaustive = second.isExhaustive
  needsGuards : verdict.needsGuards = second.needsGuards
  isQuiet : verdict.isQuiet = second.isQuiet
  distinct : ∀ kind, (found.gaps kind).Nodup
  unmatched : verdict.unmatched.Cuts options.witnessLimit (found.gaps .unmatched)
  otherUnmatched : second.unmatched.Cuts other.witnessLimit (found.gaps .unmatched)
  guardedOnly : verdict.guardedOnly.Cuts options.witnessLimit (found.gaps .guardedOnly)
  otherGuardedOnly : second.guardedOnly.Cuts other.witnessLimit (found.gaps .guardedOnly)
  eq_of_limit_eq : options.witnessLimit = other.witnessLimit → verdict = second

namespace Match

/-- Under any two options a check of a match fails in the same way, or gives verdicts that answer alike all
questions about the match.  Of either kind both list the first gaps up to their limits, out of the same gaps
without repetitions, and count the others.  Nothing in the options but the limit has a part in this. -/
theorem verdict_options (subject : Match) (env : Environment) (level : Level) (store : Store)
    (options other : Options) :
    (∃ fault, subject.verdict env level store options = .error fault ∧
      subject.verdict env level store other = .error fault) ∨
    ∃ found verdict second grown,
      subject.findings env level store = .ok (found, grown) ∧
      subject.verdict env level store options = .ok (verdict, grown) ∧
      subject.verdict env level store other = .ok (second, grown) ∧
      verdict.DiffersInLimits found options other second := by
  rw [verdict, verdict]
  cases runs : subject.findings env level store with
  | error fault => exact .inl ⟨fault, rfl, rfl⟩
  | ok result =>
      obtain ⟨found, grown⟩ := result
      have cuts (kind : HoleKind) (limit : Nat) :
          (Listing.ofWitnesses limit (Verdict.witnessesOf kind found)).Cuts limit (found.gaps kind) :=
        Listing.cuts_ofWitnesses limit _
      let verdictUnder (under : Options) : Verdict :=
        .ofFindings subject.span under subject.branches.length found
      have exhaustive (under : Options) :
          (verdictUnder under).isExhaustive = (found.gaps .unmatched).isEmpty :=
        (cuts .unmatched under.witnessLimit).isEmpty_eq
      have needsGuards (under : Options) :
          (verdictUnder under).needsGuards = !(found.gaps .guardedOnly).isEmpty :=
        congrArg not (cuts .guardedOnly under.witnessLimit).isEmpty_eq
      have sameExhaustive := (exhaustive options).trans (exhaustive other).symm
      have sameGuards := (needsGuards options).trans (needsGuards other).symm
      have sameQuiet : (verdictUnder options).isQuiet = (verdictUnder other).isQuiet := by
        rw [Verdict.isQuiet, Verdict.isQuiet, sameExhaustive, sameGuards]
        rfl
      exact .inr ⟨found, verdictUnder options, verdictUnder other, grown, rfl, rfl, rfl,
        { selected := rfl
          unselected := rfl
          isExhaustive := sameExhaustive
          needsGuards := sameGuards
          isQuiet := sameQuiet
          distinct := fun _ => nodup_eraseDups _
          unmatched := cuts .unmatched _
          otherUnmatched := cuts .unmatched _
          guardedOnly := cuts .guardedOnly _
          otherGuardedOnly := cuts .guardedOnly _
          eq_of_limit_eq := by
            intro sameLimit
            simp only [verdictUnder, Verdict.ofFindings, sameLimit] }⟩

end Match

end TypedMatch
