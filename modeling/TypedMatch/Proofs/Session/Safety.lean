import TypedMatch.Proofs.Coverage.Coherence
import TypedMatch.Proofs.Session.Request

/-!
# One request

A session is coherent if its store is, and has minted the variables that the declared types mention.  A
request that mentions only minted variables keeps the session coherent, and its answer mentions only minted
variables.  It may fail in many ways, but not because of a variable without a cell.
-/

set_option autoImplicit false

namespace TypedMatch

namespace Session

structure Coherent (session : Session) : Prop where
  store : session.store.Coherent
  declarations : session.store.Minted session.declarations.Mentions

/-- Whether an answer and the session after it are fit for further requests. -/
structure Keeps (session : Session) (answer : Answer) (later : Session) : Prop where
  coherent : later.Coherent
  nextVar_le : session.store.nextVar ≤ later.store.nextVar
  minted : later.store.Minted answer.Mentions

/-- Whether a request keeps the session coherent, or does not fail because of a variable without a cell. -/
def Survives (session : Session) : Except Fault (Answer × Session) → Prop
  | .ok (answer, later) => session.Keeps answer later
  | .error fault => fault.isStray = false

end Session

/-! ## Declared types -/

namespace Declarations

variable {declarations : Declarations}

theorem mentions_of_set {con : TyCon} {declaration : Declaration} {v : MetaVar}
    (mentions : (declarations.set con declaration).Mentions v) :
    v ∈ declaration.vars ∨ declarations.Mentions v := by
  obtain ⟨other, found, stored, occurs⟩ := mentions
  rw [get?_set] at stored
  split at stored
  · cases stored
    exact .inl occurs
  · exact .inr ⟨other, found, stored, occurs⟩

theorem mentions_of_extend {made : Declarations} {con : TyCon} {name : String} {payload : Ty SchemeVar}
    {v : MetaVar} (extended : declarations.extend con name payload = .ok made)
    (mentions : made.Mentions v) : .free v ∈ payload.leaves ∨ declarations.Mentions v := by
  obtain ⟨params, constructors, stored, _, get?_made, _⟩ := exists_of_extend extended
  obtain ⟨other, declaration, found, occurs⟩ := mentions
  rw [get?_made] at found
  split at found
  · cases found
    obtain ⟨entry, among, inEntry⟩ := List.mem_flatMap.mp occurs
    rcases List.mem_append.mp among with old | isNew
    · exact .inr ⟨con, _, stored, List.mem_flatMap.mpr ⟨entry, old, inEntry⟩⟩
    · rw [List.mem_singleton.mp isNew] at inEntry
      exact .inl (SchemeVar.mem_filterMap_free?.mp inEntry)
  · exact .inr ⟨other, declaration, found, occurs⟩

theorem eq_data_of_applyVariant {con : TyCon} {args : List (Ty MetaVar)} {type : Ty MetaVar}
    (applies : declarations.applyVariant con args = .ok type) : type = .data con args := by
  rw [applyVariant] at applies
  split at applies
  · obtain ⟨_, _, made⟩ := ok_of_bind applies
    cases made
    rfl
  · cases applies
  · cases applies

theorem exists_of_applyAlias {store grown : Store} {level : Level} {con : TyCon} {args : List (Ty MetaVar)}
    {type : Ty MetaVar} (applies : declarations.applyAlias store level con args = .ok (type, grown)) :
    ∃ template, declarations.get? con = some (.aliasOf template) ∧
      (type, grown) = (.synonym con args (store.fill level .allowed template args).1,
        (store.fill level .allowed template args).2) := by
  rw [applyAlias] at applies
  split at applies
  · rename_i template stored
    obtain ⟨_, _, made⟩ := ok_of_bind applies
    cases made
    exact ⟨template, stored, rfl⟩
  · cases applies
  · cases applies

theorem toEnvironment_mintedBy {store : Store} (minted : store.Minted declarations.Mentions) :
    declarations.toEnvironment.MintedBy store where
  bodies := fun isBody v occurs => minted v (body?_mentions isBody occurs)
  payloads := fun listed constructor among v occurs =>
    minted v (constructors?_mentions listed ⟨constructor, among, occurs⟩)

end Declarations

namespace Session

variable {session : Session}

/-! ## One request -/

section Computations

variable {Value : Type} {mentions : Value → MetaVar → Prop}

theorem Coherent.keeps_store (coherent : session.Coherent) {answer : Answer} {store : Store}
    (held : session.store.Holding answer.Mentions store) :
    session.Keeps answer { session with store } :=
  ⟨⟨held.coherent, coherent.declarations.mono held.nextVar_le⟩, held.nextVar_le, held.minted⟩

theorem Coherent.survives_advances (coherent : session.Coherent) {step : Except Fault (Value × Store)}
    (advances : session.store.Advances mentions step) (answer : Value → Answer)
    (fewer : ∀ value v, (answer value).Mentions v → mentions value v) :
    session.Survives (step >>= fun made => .ok (answer made.1, { session with store := made.2 })) := by
  cases step with
  | error fault => exact advances
  | ok made =>
      exact coherent.keeps_store
        ⟨advances.coherent, advances.nextVar_le, fun v occurs => advances.minted v (fewer _ v occurs)⟩

theorem Coherent.survives_self (coherent : session.Coherent) {answer : Answer}
    (minted : session.store.Minted answer.Mentions) : session.Survives (.ok (answer, session)) :=
  ⟨coherent, Nat.le_refl _, minted⟩

theorem Coherent.survives_reads (coherent : session.Coherent) {step : Except Fault Value}
    (reads : session.store.Reads mentions step) (answer : Value → Answer)
    (fewer : ∀ value v, (answer value).Mentions v → mentions value v) :
    session.Survives (step >>= fun value => .ok (answer value, session)) := by
  cases step with
  | error fault => exact reads
  | ok value => exact coherent.survives_self fun v occurs => reads v (fewer value v occurs)

end Computations

theorem Coherent.perform_survives (coherent : session.Coherent) (request : Request)
    (minted : session.store.Minted (request.Mentions session)) :
    session.Survives (session.perform request) := by
  cases request with
  | newVar kind quantification level =>
      have grown := coherent.store.newVar minted quantification level
      refine coherent.keeps_store ⟨grown, Nat.le_succ _, ?_⟩
      rintro v rfl
      exact Nat.lt_succ_self _
  | newBound =>
      have grown : session.store.newBound.2.Coherent := coherent.store.of_cells rfl rfl
      exact coherent.keeps_store ⟨grown, Nat.le_refl _, Store.minted_none _⟩
  | newCon name =>
      have grown : (session.store.newCon name).2.Coherent := coherent.store.of_cells rfl rfl
      exact coherent.keeps_store ⟨grown, Nat.le_refl _, Store.minted_none _⟩
  | constrain var kind =>
      have grown := coherent.store.constrain var minted
      have sameNext := session.store.nextVar_constrain var kind
      exact coherent.keeps_store ⟨grown, Nat.le_of_eq sameNext.symm, Store.minted_none _⟩
  | link var target =>
      have grown := coherent.store.link (minted var (.inl rfl)) fun v occurs => minted v (.inr occurs)
      exact coherent.keeps_store ⟨grown, Nat.le_refl _, Store.minted_none _⟩
  | generalize level type =>
      exact coherent.survives_advances (coherent.store.close_advances minted _) .generalized
        fun _ _ occurs => occurs
  | generalizeAll type =>
      exact coherent.survives_advances (coherent.store.close_advances minted _) .generalized
        fun _ _ occurs => occurs
  | instantiate level quantification scheme =>
      refine coherent.keeps_store (coherent.store.instantiateWith_holding minted ?_ level quantification)
      intro param type found
      cases found
  | instantiateAt level quantification params args scheme =>
      exact coherent.survives_advances
        (coherent.store.instantiateAt_advances (fun v occurs => minted v (.inl occurs))
          (fun arg among v occurs => minted v (.inr ⟨arg, among, occurs⟩)) level quantification)
        .type fun _ _ occurs => occurs
  | addVariant name arity =>
      refine ⟨⟨coherent.store.of_cells rfl rfl, ?_⟩, Nat.le_refl _, Store.minted_none _⟩
      intro v mentions
      rcases Declarations.mentions_of_set mentions with inVariant | before
      · cases inVariant
      · exact coherent.declarations v before
  | addAlias name arity body =>
      refine ⟨⟨coherent.store.of_cells rfl rfl, ?_⟩, Nat.le_refl _, Store.minted_none _⟩
      intro v mentions
      rcases Declarations.mentions_of_set mentions with inBody | before
      · exact minted v (SchemeVar.mem_filterMap_free?.mp inBody)
      · exact coherent.declarations v before
  | extend con name payload =>
      rw [perform]
      split
      · rename_i declarations extended
        refine ⟨⟨coherent.store, ?_⟩, Nat.le_refl _, Store.minted_none _⟩
        intro v mentions
        rcases Declarations.mentions_of_extend extended mentions with inPayload | before
        · exact minted v inPayload
        · exact coherent.declarations v before
      · exact coherent.survives_self (Store.minted_none _)
  | applyVariant con args =>
      rw [perform]
      split
      · rename_i type applies
        rw [Declarations.eq_data_of_applyVariant applies]
        exact coherent.survives_self fun v occurs => minted v (Ty.mem_leavesList.mp occurs)
      · exact coherent.survives_self (Store.minted_none _)
  | applyAlias level con args =>
      rw [perform]
      split
      · rename_i type store applies
        obtain ⟨template, isAlias, isFilled⟩ := Declarations.exists_of_applyAlias applies
        cases isFilled
        have templateMinted : session.store.Minted (· ∈ template.vars) :=
          fun v occurs => coherent.declarations v ⟨con, _, isAlias, occurs⟩
        have argsMinted : ∀ arg ∈ args, session.store.Minted (· ∈ arg.leaves) :=
          fun arg among v occurs => minted v ⟨arg, among, occurs⟩
        have held := coherent.store.fill_holding templateMinted argsMinted level .allowed
        refine coherent.keeps_store ⟨held.coherent, held.nextVar_le, fun v occurs => ?_⟩
        rcases List.mem_append.mp occurs with inArgs | inExpansion
        · exact Nat.lt_of_lt_of_le (minted v (Ty.mem_leavesList.mp inArgs)) held.nextVar_le
        · exact held.minted v inExpansion
      · exact coherent.survives_self (Store.minted_none _)
  | standsFor level quantification con args =>
      rw [perform, Declarations.standsFor?]
      split
      · rename_i template isBody
        have applies := coherent.store.apply_advances
          (fun v occurs => coherent.declarations v (Declarations.body?_mentions isBody occurs))
          (fun arg among v occurs => minted v ⟨arg, among, occurs⟩) level quantification
        cases applied : session.store.apply level quantification template args with
        | error fault =>
            rw [applied] at applies
            exact applies
        | ok made =>
            rw [applied] at applies
            exact coherent.keeps_store applies
      · exact coherent.survives_self (Store.minted_none _)
  | constructors con =>
      rw [perform]
      split
      · rename_i listed isListed
        refine coherent.survives_self fun v occurs => coherent.declarations v ?_
        exact Declarations.constructors?_mentions isListed occurs
      · exact coherent.survives_self (Store.minted_none _)
  | build level quantification constructor args =>
      exact coherent.survives_advances
        (coherent.store.apply_advances (fun v occurs => minted v (.inl occurs))
          (fun arg among v occurs => minted v (.inr ⟨arg, among, occurs⟩)) level quantification)
        .type fun _ _ occurs => occurs
  | check level subject options warnings =>
      have verdict := Match.verdict_advances coherent.store
        (Declarations.toEnvironment_mintedBy coherent.declarations) subject minted level options
      rw [perform, Match.warn]
      cases given : subject.verdict session.declarations.toEnvironment level session.store options with
      | error fault =>
          rw [given] at verdict
          exact verdict
      | ok made =>
          rw [given] at verdict
          exact coherent.keeps_store ⟨verdict.coherent, verdict.nextVar_le, Store.minted_none _⟩
  | cell var =>
      exact coherent.survives_reads (coherent.store.cell_reads (minted var rfl)) .cell
        fun _ _ occurs => occurs
  | free var =>
      have reads := coherent.store.free?_reads (minted var rfl)
      rw [perform]
      cases found : session.store.free? var with
      | error fault =>
          rw [found] at reads
          exact reads
      | ok free =>
          rw [found] at reads
          cases free with
          | none => exact coherent.survives_self (Store.minted_none _)
          | some record => exact coherent.survives_self fun v occurs => reads v ⟨record, rfl, occurs⟩
  | follow type =>
      exact coherent.survives_reads (coherent.store.followWithin_reads _ type minted) .type
        fun _ _ occurs => occurs
  | unfold type =>
      exact coherent.survives_reads (coherent.store.unfoldWithin_reads _ type minted) .type
        fun _ _ occurs => occurs
  | typeText type =>
      exact coherent.survives_reads (coherent.store.typeText_reads minted) .text
        fun _ _ occurs => occurs
  | schemeText scheme =>
      have inBody := coherent.store.schemeText_reads fun v occurs => minted v (.inl occurs)
      exact coherent.survives_reads inBody .text fun _ _ occurs => occurs

end Session

end TypedMatch
