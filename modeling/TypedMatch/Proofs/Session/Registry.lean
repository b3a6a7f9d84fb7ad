import TypedMatch.Proofs.Declaration.Logged
import TypedMatch.Proofs.Session.Run

/-!
# The registry of a session

A session that begins without declared types keeps a registry of them.  Whatever requests it performs, what is
known of a type stays so for good: a variant remains one, as does an alias, and an identity that was handed out
for something else is never declared.  A request that is turned down might as well not have been made.
-/

set_option autoImplicit false

namespace TypedMatch

def Request.registers : Request → Bool
  | addVariant _ _ | addAlias _ _ _ | extend _ _ _ => true
  | _ => false

namespace Session

/-- What a request has entered into the declared types, if its answer says that it has done so. -/
def registration? : Request × Answer → Option Registration
  | (.addVariant _ _, .declared declared) => some (.variant declared)
  | (.addAlias _ _ body, .declared declared) => some (.aliasOf declared (body declared.params))
  | (.extend con name payload, .done) => some (.constructor con name payload)
  | _ => none

def registrations (history : List (Request × Answer)) : List Registration := history.filterMap registration?

/-- Whether requests have the given answers and lead from one session to another. -/
inductive Performs : Session → List (Request × Answer) → Session → Prop where
  | none (session : Session) : Performs session [] session
  | next {session later last : Session} {request : Request} {answer : Answer}
      {rest : List (Request × Answer)} : session.perform request = .ok (answer, later) →
      Performs later rest last → Performs session ((request, answer) :: rest) last

variable {session later last : Session} {request : Request} {answer : Answer}
  {history : List (Request × Answer)} {log : List Registration}

theorem Performs.append {rest : List (Request × Answer)} (first : Performs session history later)
    (second : Performs later rest last) : Performs session (history ++ rest) last := by
  induction first with
  | none => exact second
  | next performs _ inductionHypothesis => exact .next performs (inductionHypothesis second)

theorem Performs.split : ∀ {earlier rest : List (Request × Answer)} {session : Session},
    Performs session (earlier ++ rest) last →
      ∃ later, Performs session earlier later ∧ Performs later rest last
  | [], _, session, performed => ⟨session, .none session, performed⟩
  | _ :: _, _, _, .next performs performed => by
      obtain ⟨later, before, after⟩ := performed.split
      exact ⟨later, .next performs before, after⟩

/-! ## What a request enters -/

theorem declarations_eq_of_perform (performs : session.perform request = .ok (answer, later))
    (other : request.registers = false) : later.declarations = session.declarations := by
  cases request with
  | addVariant | addAlias | extend => cases other
  | newVar | newBound | newCon | constrain | link | instantiate =>
      cases performs
      rfl
  | generalize | generalizeAll | instantiateAt | build =>
      obtain ⟨⟨_, _⟩, _, made⟩ := ok_of_bind performs
      cases made
      rfl
  | applyVariant | applyAlias | constructors =>
      rw [perform] at performs
      split at performs
      · cases performs
        rfl
      · cases performs
        rfl
  | standsFor | free =>
      obtain ⟨found, _, made⟩ := ok_of_bind performs
      cases found with
      | none =>
          cases made
          rfl
      | some =>
          cases made
          rfl
  | check =>
      obtain ⟨⟨_, _, _⟩, _, made⟩ := ok_of_bind performs
      cases made
      rfl
  | cell | follow | unfold | typeText | schemeText =>
      obtain ⟨_, _, made⟩ := ok_of_bind performs
      cases made
      rfl

theorem eq_of_refused {error : DeclarationError}
    (performs : session.perform request = .ok (.refused error, later)) : later = session := by
  cases request with
  | newVar | newBound | newCon | constrain | link | instantiate | addVariant | addAlias => cases performs
  | generalize | generalizeAll | instantiateAt | build =>
      obtain ⟨⟨_, _⟩, _, made⟩ := ok_of_bind performs
      cases made
  | extend | applyVariant | applyAlias =>
      rw [perform] at performs
      split at performs
      · cases performs
      · cases performs
        rfl
  | constructors =>
      rw [perform] at performs
      split at performs
      · cases performs
      · cases performs
  | standsFor | free =>
      obtain ⟨found, _, made⟩ := ok_of_bind performs
      cases found with
      | none => cases made
      | some => cases made
  | check =>
      obtain ⟨⟨_, _, _⟩, _, made⟩ := ok_of_bind performs
      cases made
  | cell | follow | unfold | typeText | schemeText =>
      obtain ⟨_, _, made⟩ := ok_of_bind performs
      cases made

theorem nextCon_le (performs : session.perform request = .ok (answer, later)) :
    session.store.nextCon ≤ later.store.nextCon := by
  obtain ⟨whole, issues, _⟩ := perform_issues performs
  obtain ⟨_, _, _, counted⟩ := issues.consecutive
  omega

theorem newDeclared_lt (store : Store) (name : String) (arity : Nat) :
    (store.newDeclared name arity).1.con.number < (store.newDeclared name arity).2.nextCon := by
  obtain ⟨_, _, _, counted⟩ := (store.issues_newDeclared name arity).consecutive
  rw [counted]
  exact Nat.lt_succ_self _

theorem perform_records (records : session.declarations.Records log session.store.nextCon)
    (performs : session.perform request = .ok (answer, later)) :
    later.declarations.Records (log ++ registrations [(request, answer)]) later.store.nextCon := by
  cases registers : request.registers with
  | false =>
      have nothing : registrations [(request, answer)] = [] := by
        cases request <;> first | rfl | cases registers
      rw [nothing, List.append_nil, declarations_eq_of_perform performs registers]
      exact records.mono (nextCon_le performs)
  | true =>
      cases request with
      | addVariant name arity =>
          cases performs
          exact records.declare rfl (Nat.le_refl _) (newDeclared_lt session.store name arity)
      | addAlias name arity body =>
          cases performs
          exact records.declare rfl (Nat.le_refl _) (newDeclared_lt session.store name arity)
      | extend con name payload =>
          rw [perform] at performs
          split at performs
          · rename_i made extended
            cases performs
            exact records.extend extended
          · cases performs
            have nothing (error : DeclarationError) :
                registrations [(.extend con name payload, .refused error)] = [] := rfl
            rw [nothing, List.append_nil]
            exact records
      | _ => cases registers

theorem Performs.records (performed : Performs session history last)
    (records : session.declarations.Records log session.store.nextCon) :
    last.declarations.Records (log ++ registrations history) last.store.nextCon := by
  induction performed generalizing log with
  | none =>
      rw [registrations, List.filterMap_nil, List.append_nil]
      exact records
  | @next _ _ _ request answer rest performs _ inductionHypothesis =>
      have whole : registrations ((request, answer) :: rest)
          = registrations [(request, answer)] ++ registrations rest :=
        List.filterMap_append (l := [_])
      rw [whole, ← List.append_assoc]
      exact inductionHypothesis (perform_records records performs)

/-! ## What stays as it is -/

theorem perform_agrees (performs : session.perform request = .ok (answer, later)) {con : TyCon}
    (identified : con.number < session.store.nextCon) :
    later.declarations.Agrees session.declarations con := by
  cases registers : request.registers with
  | false =>
      rw [declarations_eq_of_perform performs registers]
      exact .of_get?_eq rfl
  | true =>
      cases request with
      | addVariant name arity | addAlias name arity body =>
          cases performs
          apply Declarations.Agrees.of_get?_eq
          exact (Declarations.get?_set _ _ _ _).trans (if_neg (Nat.ne_of_lt identified))
      | extend con name payload =>
          rw [perform] at performs
          split at performs
          · rename_i made extended
            cases performs
            exact .of_extend extended _
          · cases performs
            exact .of_get?_eq rfl
      | _ => cases registers

theorem Performs.agrees (performed : Performs session history last) {con : TyCon}
    (identified : con.number < session.store.nextCon) :
    last.declarations.Agrees session.declarations con := by
  induction performed with
  | none => exact .of_get?_eq rfl
  | next performs _ inductionHypothesis =>
      have stillIdentified := Nat.lt_of_lt_of_le identified (nextCon_le performs)
      exact (inductionHypothesis stillIdentified).trans (perform_agrees performs identified)

/-- Without a request that has been turned down the others are answered as with it. -/
theorem Performs.without {earlier rest : List (Request × Answer)} {error : DeclarationError}
    (performed : Performs session (earlier ++ (request, .refused error) :: rest) last) :
    Performs session (earlier ++ rest) last := by
  obtain ⟨before, first, others⟩ := performed.split
  cases others with
  | next performs second =>
      rw [eq_of_refused performs] at second
      exact first.append second

theorem perform_extend_iff {con : TyCon} {name : String} {payload : Ty SchemeVar} :
    (∃ later, session.perform (.extend con name payload) = .ok (.done, later)) ↔
      ∃ listed, session.declarations.constructors? con = some listed ∧
        name ∉ listed.map Constructor.name := by
  rw [← Declarations.exists_extend_iff payload]
  constructor
  · rintro ⟨later, performs⟩
    rw [perform] at performs
    split at performs
    · rename_i made extended
      exact ⟨made, extended⟩
    · cases performs
  · rintro ⟨made, extended⟩
    rw [perform, extended]
    exact ⟨_, rfl⟩

/-- Whatever a session performs that begins without declared types, the declared types answer as the log of
what has been entered says.  What is known of a type stays so for good; the rest of a history is the same
without a request that has been turned down; and a constructor, for which no identity has to be minted, is never
met by a fault, but turned down just if it is for something that is no variant, or that has one of this name. -/
theorem registry_follows {store : Store} (performed : Performs ⟨store, .empty⟩ history last) :
    last.declarations.Follows (registrations history) ∧
    (∀ further later, Performs last further later → ∀ con : TyCon, con.number < last.store.nextCon →
      later.declarations.Agrees last.declarations con) ∧
    (∀ earlier request error rest, history = earlier ++ (request, .refused error) :: rest →
      Performs ⟨store, .empty⟩ (earlier ++ rest) last) ∧
    (∀ con name payload, ∃ answer later, last.perform (.extend con name payload) = .ok (answer, later)) ∧
    ∀ con name payload, (∃ later, last.perform (.extend con name payload) = .ok (.done, later)) ↔
      ∃ listed, last.declarations.constructors? con = some listed ∧ name ∉ listed.map Constructor.name := by
  refine ⟨?_, ?_, ?_, ?_, fun _ _ _ => perform_extend_iff⟩
  · exact (performed.records (Declarations.records_empty store.nextCon)).follows
  · intro further later goesOn con identified
    exact goesOn.agrees identified
  · rintro earlier request error rest rfl
    exact performed.without
  · intro con name payload
    rw [perform]
    split
    · exact ⟨_, _, rfl⟩
    · exact ⟨_, _, rfl⟩

/-- Two variants that get their constructors in turns, with an identity of another kind, an alias, and three
requests that are turned down in between. -/
def interleaved : List (Request × Answer) :=
  let unit : Ty SchemeVar := .base .unit
  [(.addVariant "t" 0, .declared ⟨⟨0, "t"⟩, []⟩),
    (.addVariant "u" 0, .declared ⟨⟨1, "u"⟩, []⟩),
    (.addAlias "v" 0 fun _ => unit, .declared ⟨⟨2, "v"⟩, []⟩),
    (.newCon "w", .con ⟨3, "w"⟩),
    (.extend ⟨0, "t"⟩ "A" unit, .done),
    (.extend ⟨1, "u"⟩ "A" unit, .done),
    (.extend ⟨0, "t"⟩ "A" unit, .refused (.constructorTaken "A" "t")),
    (.extend ⟨2, "v"⟩ "A" unit, .refused (.noVariant "v")),
    (.extend ⟨3, "w"⟩ "A" unit, .refused (.undeclared "w")),
    (.extend ⟨0, "t"⟩ "B" unit, .done)]

theorem interleaved_follows :
    ∃ last, Performs ⟨.empty, .empty⟩ interleaved last ∧
      last.declarations.Follows (registrations interleaved) ∧
      (last.declarations.constructors? ⟨0, "t"⟩).map (·.map Constructor.name) = some ["A", "B"] ∧
      last.declarations.owner? "A" = some ⟨1, "u"⟩ ∧
      ∀ further later, Performs last further later →
        later.declarations.constructors? ⟨3, "w"⟩ = none ∧ later.declarations.abbreviates ⟨3, "w"⟩ = false := by
  have performed : ∃ last, Performs ⟨.empty, .empty⟩ interleaved last ∧ last.store.nextCon = 4 ∧
      (last.declarations.constructors? ⟨0, "t"⟩).map (·.map Constructor.name) = some ["A", "B"] ∧
      last.declarations.owner? "A" = some ⟨1, "u"⟩ ∧
      last.declarations.constructors? ⟨3, "w"⟩ = none ∧ last.declarations.abbreviates ⟨3, "w"⟩ = false :=
    ⟨_, .next rfl (.next rfl (.next rfl (.next rfl (.next rfl (.next rfl (.next rfl (.next rfl (.next rfl
      (.next rfl (.none _)))))))))), rfl, rfl, rfl, rfl, rfl⟩
  obtain ⟨last, performed, isNext, listed, isOwner, unlisted, unabbreviated⟩ := performed
  obtain ⟨follows, forGood, _⟩ := registry_follows performed
  refine ⟨last, performed, follows, listed, isOwner, ?_⟩
  intro further later goesOn
  have identified : (⟨3, "w"⟩ : TyCon).number < last.store.nextCon := by
    rw [isNext]
    decide
  obtain ⟨sameListed, sameAbbreviates⟩ := forGood further later goesOn ⟨3, "w"⟩ identified
  rw [unlisted] at sameListed
  rw [unabbreviated] at sameAbbreviates
  exact ⟨Option.isNone_iff_eq_none.mp (Option.isSome_eq_false_iff.mp sameListed), sameAbbreviates⟩

end Session

end TypedMatch
