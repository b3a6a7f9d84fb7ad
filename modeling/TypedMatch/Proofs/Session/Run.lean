import TypedMatch.Proofs.Match.History
import TypedMatch.Proofs.Session.Safety

/-!
# Runs of requests

A run starts with an empty store and performs requests that mention only variables that the session has
minted by then.  The session stays coherent, all answers mention minted variables only, and no identity is
handed out twice.
-/

set_option autoImplicit false

namespace TypedMatch.Session

/-- The sessions that requests lead to, with the requests and their answers so far.  Requests mention only
variables that have been minted by then. -/
inductive Run (start : Session) : List (Request × Answer) → Session → Prop where
  | start : Run start [] start
  | step {history : List (Request × Answer)} {before after : Session} {answer : Answer}
      (request : Request) : Run start history before → before.store.Minted (request.Mentions before) →
      before.perform request = .ok (answer, after) → Run start (history ++ [(request, answer)]) after

/-- The identities that the answers of a run hand out. -/
def issued (history : List (Request × Answer)) : Issued :=
  history.foldl (fun so entry => so.append entry.2.issued) .none

variable {session later start last : Session} {history : List (Request × Answer)}

/-! ## What a request issues -/

theorem perform_issues {request : Request} {answer : Answer}
    (performs : session.perform request = .ok (answer, later)) :
    ∃ whole, session.store.Issues whole later.store ∧ answer.issued.Among whole := by
  cases request with
  | newVar kind quantification level =>
      cases performs
      exact ⟨_, .newVar kind quantification level .none, .refl _⟩
  | newBound =>
      cases performs
      exact ⟨_, .newBound .none, .refl _⟩
  | newCon name =>
      cases performs
      exact ⟨_, .newCon name .none, .refl _⟩
  | constrain var kind =>
      cases performs
      exact ⟨_, .constrain var kind .none, .refl _⟩
  | link var target =>
      cases performs
      exact ⟨_, .link var target .none, .refl _⟩
  | generalize level type | generalizeAll type =>
      obtain ⟨⟨scheme, store⟩, closes, made⟩ := ok_of_bind performs
      cases made
      exact Store.close_issues closes
  | instantiate level quantification scheme =>
      cases performs
      exact Store.HasMinted.issues
        ⟨_, session.store.instantiateWith_mints level quantification [] scheme⟩
  | instantiateAt level quantification params args scheme =>
      obtain ⟨⟨type, store⟩, instantiates, made⟩ := ok_of_bind performs
      cases made
      exact Store.HasMinted.issues (Store.instantiateAt_mints instantiates)
  | addVariant name arity =>
      cases performs
      exact ⟨_, session.store.issues_newDeclared name arity, .refl _⟩
  | addAlias name arity body =>
      cases performs
      exact ⟨_, session.store.issues_newDeclared name arity, .refl _⟩
  | extend con name payload =>
      rw [perform] at performs
      split at performs
      · cases performs
        exact ⟨_, .none, .refl _⟩
      · cases performs
        exact ⟨_, .none, .refl _⟩
  | applyVariant con args =>
      rw [perform] at performs
      split at performs
      · cases performs
        exact ⟨_, .none, .refl _⟩
      · cases performs
        exact ⟨_, .none, .refl _⟩
  | applyAlias level con args =>
      rw [perform] at performs
      split at performs
      · rename_i type store applies
        obtain ⟨template, _, isFilled⟩ := Declarations.exists_of_applyAlias applies
        cases isFilled
        cases performs
        exact Store.HasMinted.issues ⟨_, session.store.instantiateWith_mints level .allowed
          (Store.pairUp template.params args) template.scheme⟩
      · cases performs
        exact ⟨_, .none, .refl _⟩
  | standsFor level quantification con args =>
      obtain ⟨found, expands, made⟩ := ok_of_bind performs
      rw [Declarations.standsFor?] at expands
      split at expands
      · rename_i template _
        cases applied : session.store.apply level quantification template args with
        | error fault =>
            rw [applied] at expands
            cases expands
        | ok result =>
            rw [applied] at expands
            cases expands
            cases made
            exact Store.HasMinted.issues (Store.apply_mints applied)
      · cases expands
        cases made
        exact ⟨_, .none, .refl _⟩
  | constructors con =>
      rw [perform] at performs
      split at performs
      · cases performs
        exact ⟨_, .none, .refl _⟩
      · cases performs
        exact ⟨_, .none, .refl _⟩
  | build level quantification constructor args =>
      obtain ⟨⟨type, store⟩, applied, made⟩ := ok_of_bind performs
      cases made
      exact Store.HasMinted.issues (Store.apply_mints applied)
  | check level subject options warnings =>
      obtain ⟨⟨verdict, diagnostics, store⟩, warns, made⟩ := ok_of_bind performs
      cases made
      obtain ⟨⟨given, grown⟩, gives, made⟩ := ok_of_bind warns
      cases made
      exact Store.HasMinted.issues (Match.verdict_mints gives)
  | free var =>
      obtain ⟨found, _, made⟩ := ok_of_bind performs
      cases found with
      | none =>
          cases made
          exact ⟨_, .none, .refl _⟩
      | some record =>
          cases made
          exact ⟨_, .none, .refl _⟩
  | cell | follow | unfold | typeText | schemeText =>
      obtain ⟨_, _, made⟩ := ok_of_bind performs
      cases made
      exact ⟨_, .none, .refl _⟩

/-! ## Runs -/

theorem Run.coherent (run : Run start history last) (coherent : start.Coherent) :
    last.Coherent ∧ ∀ entry ∈ history, last.store.Minted entry.2.Mentions := by
  induction run with
  | start =>
      refine ⟨coherent, ?_⟩
      intro entry among
      cases among
  | step request _ minted performs inductionHypothesis =>
      obtain ⟨coherentBefore, mintedBefore⟩ := inductionHypothesis
      have survives := coherentBefore.perform_survives request minted
      rw [performs] at survives
      refine ⟨survives.coherent, ?_⟩
      intro entry among
      rcases List.mem_append.mp among with old | isNew
      · exact (mintedBefore entry old).mono survives.nextVar_le
      · rw [List.mem_singleton.mp isNew]
        exact survives.minted

theorem Run.issues (run : Run start history last) :
    ∃ whole, start.store.Issues whole last.store ∧ (issued history).Among whole := by
  induction run with
  | start => exact ⟨_, .none, .refl _⟩
  | step _ _ _ performs inductionHypothesis =>
      obtain ⟨whole, issuesBefore, amongBefore⟩ := inductionHypothesis
      obtain ⟨more, issues, among⟩ := perform_issues performs
      refine ⟨_, issuesBefore.trans issues, ?_⟩
      rw [issued, List.foldl_append]
      exact amongBefore.append among

/-- Throughout a run the store is coherent and the declared types mention minted variables only, as do all
answers; the identities that are issued, to the answers or on the way, are all different; and no request that
mentions minted variables only fails because of a variable without a cell. -/
theorem run_coherent {declarations : Declarations} (unaware : ∀ v, ¬ declarations.Mentions v)
    (run : Run ⟨.empty, declarations⟩ history last) :
    last.Coherent ∧ (∀ entry ∈ history, last.store.Minted entry.2.Mentions) ∧
      (∃ whole, Store.empty.Issues whole last.store ∧ whole.Distinct ∧
        (issued history).Among whole ∧ (issued history).Distinct) ∧
      ∀ request, last.store.Minted (request.Mentions last) →
        ∀ v, last.perform request ≠ .error (.unknownVar v) := by
  have fresh : Coherent ⟨.empty, declarations⟩ :=
    ⟨Store.empty_coherent, fun v mentions => absurd mentions (unaware v)⟩
  obtain ⟨coherent, minted⟩ := run.coherent fresh
  obtain ⟨whole, issues, among⟩ := run.issues
  have distinct := issues.distinct
  refine ⟨coherent, minted, ⟨whole, issues, distinct, among, among.distinct distinct⟩, ?_⟩
  intro request mentioned v performs
  have survives := coherent.perform_survives request mentioned
  rw [performs] at survives
  cases survives

/-- A record that leads to another variable is generalised before the other variable is linked to a type that
mentions it.  The link leads back to itself: then no text can be made of the variable, though it is known. -/
theorem circularRun_coherent :
    ∃ history last, Run ⟨.empty, .empty⟩ history last ∧ last.Coherent ∧ (issued history).Distinct ∧
      issued history = ⟨[⟨0⟩, ⟨1⟩], [⟨0⟩, ⟨2⟩, ⟨1⟩], [⟨0, "box"⟩]⟩ ∧
      last.perform (.typeText (.var ⟨0⟩)) = .error .endless ∧
      ∀ v, last.perform (.typeText (.var ⟨0⟩)) ≠ .error (.unknownVar v) := by
  have unaware : ∀ v, ¬ Declarations.empty.Mentions v := by
    rintro v ⟨con, declaration, stored, _⟩
    cases stored
  have one {store : Store} {v : MetaVar} (isMinted : v.number < store.nextVar) :
      store.Minted (· ∈ [v]) := by
    intro w occurs
    rw [List.mem_singleton.mp occurs]
    exact isMinted
  have empty : Run ⟨.empty, .empty⟩ [] ⟨.empty, .empty⟩ := .start
  have element := empty.step (.newVar .any .allowed ⟨1⟩) (fun _ occurs => nomatch occurs) rfl
  have record := element.step (.newVar (.record [("next", .var ⟨0⟩)]) .allowed ⟨1⟩) (one (by decide)) rfl
  have declared := record.step (.addVariant "box" 1) (Store.minted_none _) rfl
  have generalized := declared.step (.generalize .bottom (.list (.var ⟨1⟩))) (one (by decide)) rfl
  have linked := generalized.step (.link ⟨0⟩ (.data ⟨0, "box"⟩ [.var ⟨0⟩])) (by
    rintro v (rfl | occurs)
    · decide
    · exact one (by decide) v occurs) rfl
  obtain ⟨coherent, _, ⟨_, _, _, _, distinct⟩, known⟩ := run_coherent unaware linked
  exact ⟨_, _, linked, coherent, distinct, rfl, rfl, known (.typeText (.var ⟨0⟩)) (one (by decide))⟩

end TypedMatch.Session
