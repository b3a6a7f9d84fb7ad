import TypedMatch.Proofs.Coverage.Width
import TypedMatch.Proofs.Declaration.Built
import TypedMatch.Proofs.Match.Partition
import TypedMatch.Proofs.Store.Closed

/-!
# Checks do not fail

A match is well typed if its variables and links are in order, every declared type that is met is declared
and has as many arguments as parameters, aliases lead somewhere, and the patterns fit.  The check of such a
match succeeds, however many branches there are.  On the way every row has a shape for every slot, and
every hole a witness for every slot, so nothing is ever looked for that is not there.
-/

set_option autoImplicit false

namespace TypedMatch.Match

/-- Whether a match is well typed, in a store and with the types declared so far. -/
structure WellTyped (subject : Match) (declarations : Declarations) (store : Store) : Prop where
  built : declarations.Built
  acyclic : store.Acyclic
  typeOwned : store.Owns subject.scrutinee.leaves
  envOwned : declarations.toEnvironment.OwnedBy store
  defined : (declarations.toEnvironment.outline store).Defined (store.outline subject.scrutinee)
  fits : ∀ branch ∈ subject.branches,
    branch.pattern.Fits (declarations.toEnvironment.outline store) (store.outline subject.scrutinee)

variable {subject : Match} {declarations : Declarations} {store : Store}

theorem WellTyped.cover_ok (wellTyped : subject.WellTyped declarations store) (level : Level) :
    ∃ rows findings grown, Row.ofBranches 0 subject.branches = .ok rows ∧
      (declarations.toEnvironment.outline store).Typed rows [store.outline subject.scrutinee] ∧
      cover declarations.toEnvironment level store rows [subject.scrutinee]
        = .ok (findings, grown) := by
  obtain ⟨rows, made, _, rowsFit, _⟩ := Row.exists_ofBranches wellTyped.fits 0
  have typed : (declarations.toEnvironment.outline store).Typed rows
      [store.outline subject.scrutinee] :=
    ⟨rowsFit, List.forall_mem_singleton.mpr (wellTyped.built.sound_of_defined wellTyped.defined)⟩
  obtain ⟨leaves, grown, runs, _⟩ :=
    cover_splits wellTyped.acyclic wellTyped.envOwned level store (.refl store) rows
      [subject.scrutinee] (List.forall_mem_singleton.mpr wellTyped.typeOwned) typed
  exact ⟨rows, .ofLeaves leaves, grown, made, typed, runs⟩

theorem WellTyped.verdict_ok (wellTyped : subject.WellTyped declarations store) (level : Level)
    (options : Options) :
    ∃ result, subject.verdict declarations.toEnvironment level store options = .ok result := by
  obtain ⟨rows, findings, grown, made, _, runs⟩ := wellTyped.cover_ok level
  rw [verdict, Match.findings, made]
  simp only [bind, Except.bind, runs]
  exact ⟨_, rfl⟩

/-- The check of a well-typed match succeeds, and so do all calls that it makes.  The rows of each call
have one shape for every slot, and its holes have one witness for every slot. -/
theorem verdict_succeeds (wellTyped : subject.WellTyped declarations store) (level : Level)
    (options : Options) :
    ∃ rows verdict grown, Row.ofBranches 0 subject.branches = .ok rows ∧
      subject.verdict declarations.toEnvironment level store options = .ok (verdict, grown) ∧
      ∀ call : Query, Query.Leads declarations.toEnvironment level
          ⟨store, rows, [subject.scrutinee]⟩ call →
        call.Wide ∧ ∃ findings last,
          call.run declarations.toEnvironment level = .ok (findings, last) ∧
            ∀ hole ∈ findings.holes, hole.witnesses.length = call.slots.length := by
  obtain ⟨rows, findings, grown, made, typed, runs⟩ := wellTyped.cover_ok level
  obtain ⟨⟨verdict, last⟩, succeeds⟩ := wellTyped.verdict_ok level options
  let start : Query := ⟨store, rows, [subject.scrutinee]⟩
  have startRuns : start.run declarations.toEnvironment level = .ok (findings, grown) := runs
  have startWide : start.Wide := fun row among => (typed.fits row among).length_eq
  refine ⟨rows, verdict, last, made, succeeds, ?_⟩
  intro call leads
  obtain ⟨⟨found, callLast⟩, ran⟩ := Query.Leads.run_ok leads startRuns
  exact ⟨startWide.of_leads leads, found, callLast, ran, call.length_witnesses found callLast ran⟩

/-! ## Queues that have been declared -/

/-- The declaration of queues, with a constructor for the empty queue and one for an item in front of a
queue. -/
def queueDeclarations : Declarations where
  types := ⟨[(0, .variant [⟨0⟩]
    [("Empty", .unit), ("Front", .product [.var (.bound ⟨0⟩), .data queueCon [.var (.bound ⟨0⟩)]])])]⟩
  owners := ⟨[("Front", queueCon), ("Empty", queueCon)]⟩

theorem queueDeclarations_built : queueDeclarations.Built := by
  have declared : (Declarations.empty.addVariant .empty "queue" 1).2.1.Built :=
    .addVariant .empty "queue" 1 .empty
  have extended : (Declarations.mk ⟨[(0, .variant [⟨0⟩] [("Empty", .unit)])]⟩
      ⟨[("Empty", queueCon)]⟩).Built :=
    .extend declared (rfl : Declarations.extend _ queueCon "Empty" .unit = .ok _)
  exact .extend extended (rfl : Declarations.extend _ queueCon "Front"
    (.product [.var (.bound ⟨0⟩), .data queueCon [.var (.bound ⟨0⟩)]]) = .ok _)

/-- A store with a variable that is linked to a type of queues, whose items are of a type that is linked
to a synonym of integers. -/
def linkedStore : Store where
  nextCon := 2
  nextVar := 2
  nextBound := 1
  cells :=
    ⟨[(⟨1⟩, .linked (.synonym ⟨1, "count"⟩ [] (.base .int))),
      (⟨0⟩, .linked (.data queueCon [.var ⟨1⟩]))]⟩

def linkedMatch : Match := { queueMatch with scrutinee := .var ⟨0⟩ }

theorem linkedMatch_wellTyped : linkedMatch.WellTyped queueDeclarations linkedStore := by
  let outlined := queueDeclarations.toEnvironment.outline linkedStore
  have closed : linkedStore.Closed := by decide
  have notAlias : ∀ type ∈ queueTypes, outlined.aliasAt? type = none := by
    simp only [queueTypes, List.forall_mem_cons]
    exact ⟨Environment.aliasAt?_data_eq_none.mpr rfl, rfl, rfl, rfl, List.forall_mem_nil _⟩
  have rooted : ∀ type ∈ queueTypes, outlined.Root type type :=
    fun type among => Environment.root_self (notAlias type among)
  have parts : ∀ type ∈ queueTypes, ∀ part ∈ outlined.partsAt type, part ∈ queueTypes := by
    have ofQueue : outlined.partsAt queueType = [.unit, .product [.base .int, queueType]] := rfl
    have ofPair : outlined.partsAt (.product [.base .int, queueType]) = [.base .int, queueType] := rfl
    simp only [queueTypes, List.forall_mem_cons, ofQueue, ofPair]
    simp [Environment.partsAt, Ty.unit]
  have defines : ∀ type ∈ queueTypes, outlined.Defines type := by
    rintro _ among con args rfl
    have sameType : .data con args = queueType := by
      simpa [queueTypes, queueType, Ty.unit] using among
    cases sameType
    exact ⟨_, rfl, List.forall_mem_cons.mpr ⟨rfl, List.forall_mem_singleton.mpr rfl⟩⟩
  exact
    { built := queueDeclarations_built
      acyclic := Store.acyclic_of_entries (fun v => 1 - v.number) (by decide)
      typeOwned := closed.owns (by decide)
      envOwned := Declarations.ownedBy_of_closed closed (by decide)
      defined := by
        apply Environment.defined_of_closed (fun other among =>
          ⟨other, among, rooted other among, parts other among⟩) defines
        exact .head _
      fits := by
        change ∀ branch ∈ queueMatch.branches, branch.pattern.Fits outlined queueType
        apply queueMatch_fits
        · exact ⟨_, _, _, _, rooted queueType (.head _), rfl, .head _, rfl, rfl⟩
        · exact ⟨_, _, _, _, rooted queueType (.head _), rfl, .tail _ (.head _), rfl, rfl⟩
        · exact rooted }

/-- Queues of integers are well typed through the link, and the check of them succeeds. -/
theorem linkedMatch_succeeds :
    linkedMatch.WellTyped queueDeclarations linkedStore ∧
      ∃ verdict grown, linkedMatch.verdict queueDeclarations.toEnvironment .bottom linkedStore {}
        = .ok (verdict, grown) := by
  obtain ⟨_, verdict, grown, _, runs, _⟩ := verdict_succeeds linkedMatch_wellTyped .bottom {}
  exact ⟨linkedMatch_wellTyped, verdict, grown, runs⟩

end TypedMatch.Match
