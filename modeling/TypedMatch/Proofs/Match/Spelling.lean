import TypedMatch.Proofs.Coverage.Mimicry
import TypedMatch.Proofs.Environment.Respelling
import TypedMatch.Proofs.Match.Transparency

/-!
# The spelling of aliases hardly shows

An alias with its arguments may be written by its name alone or together with what it stands for, in a
matched type and in the payloads of constructors, or what it stands for may be written in its place.  All of
these have the same verdict unless there is a payload that is unit once links and synonyms are resolved, in
one spelling, and an alias of unit by its name alone in the other.  The constructor with that payload is
shown without it in the first spelling, and with it in the second.
-/

set_option autoImplicit false

namespace TypedMatch

/-- An alias that is applied to arguments, together with what it stands for, is equated with the alias by
its name alone. -/
theorem Declarations.equates_applyAlias {declarations : Declarations} {store grown : Store} {level : Level}
    {con : TyCon} {args : List (Ty MetaVar)} {type : Ty MetaVar} (acyclic : store.Acyclic)
    (owned : declarations.toEnvironment.OwnedBy store) (argsOwned : ∀ arg ∈ args, store.Owns arg.leaves)
    (applied : declarations.applyAlias store level con args = .ok (type, grown)) :
    (declarations.toEnvironment.outline store).Equates (grown.outline (.data con args))
      (grown.outline type) := by
  rw [applyAlias] at applied
  split at applied
  · rename_i template stored
    have isBody : declarations.body? con = some template := by
      simp only [body?, stored, Option.bind_some, Declaration.body?]
    by_cases fits : template.params.length = args.length
    · obtain ⟨expansion, last, applies, growth, _, isFilled⟩ :=
        Store.apply_of_owns acyclic (.refl store) (owned.bodies isBody) argsOwned fits level .allowed
      rw [Store.apply, Store.instantiateAt, if_pos fits] at applies
      have isInstance : store.fill level .allowed template args = (expansion, last) := Except.ok.inj applies
      simp only [requireArity, if_pos fits, bind, Except.bind, isInstance] at applied
      cases applied
      have sameArgs := Store.map_outline_of_extends acyclic growth argsOwned
      have isExpansion : grown.outline (.synonym con args expansion) = grown.outline expansion := rfl
      have abbreviates : declarations.abbreviates con = true := by
        rw [abbreviates, isBody]
        rfl
      rw [Store.outline_data, isExpansion, isFilled, sameArgs]
      exact Environment.equates_application abbreviates
        (Option.map_eq_some_iff.mpr ⟨template, isBody, rfl⟩) (fits.trans (List.length_map _).symm)
    · rw [requireArity, if_neg fits] at applied
      cases applied
  · cases applied
  · cases applied

namespace Environment

variable {env other : Environment} {type image : Ty Unit} {rows : List Row}

theorem Finds.of_respells (respells : other.Respells env) (alike : env.SpellsAlike other type image)
    {findings : Findings} (found : env.Finds rows [type] findings) : other.Finds rows [image] findings := by
  -- Checked there and back again, the findings are what they were, so nothing was sharpened on the way.
  obtain ⟨others, again, sharpens⟩ := found.mimic respells.mimics (.cons alike .nil)
  obtain ⟨thirds, further, back⟩ := again.mimic respells.symm.mimics (.cons (alike.symm respells) .nil)
  rw [further.unique found] at back
  rwa [sharpens.antisymm back]

end Environment

namespace Match

variable {subject : Match} {env other : Environment} {store : Store} {image : Ty MetaVar}

/-- A match has the same verdict however aliases are spelled in the matched type and in payloads, or
neither check succeeds, as long as no payload is unit in one spelling and an alias of unit in the other. -/
theorem verdict_respelled (acyclic : store.Acyclic) (envOwned : env.OwnedBy store)
    (otherOwned : other.OwnedBy store) (typeOwned : store.Owns subject.scrutinee.leaves)
    (imageOwned : store.Owns image.leaves) (respells : (other.outline store).Respells (env.outline store))
    (alike : (env.outline store).SpellsAlike (other.outline store) (store.outline subject.scrutinee)
      (store.outline image)) (level : Level) (options : Options) :
    (∃ verdict grown otherGrown,
      subject.verdict env level store options = .ok (verdict, grown) ∧
        { subject with scrutinee := image }.verdict other level store options
          = .ok (verdict, otherGrown)) ∨
      (∃ fault, subject.verdict env level store options = .error fault) ∧
        ∃ fault, { subject with scrutinee := image }.verdict other level store options
          = .error fault := by
  have same : ∀ rows findings,
      (env.outline store).Finds rows [store.outline subject.scrutinee] findings ↔
        (other.outline store).Finds rows [store.outline image] findings :=
    fun _ _ => ⟨.of_respells respells alike, .of_respells respells.symm (alike.symm respells)⟩
  rw [verdict, verdict]
  rcases findings_agree_of_finds acyclic envOwned otherOwned typeOwned imageOwned same level with
    ⟨findings, grown, otherGrown, runs, otherRuns⟩ | ⟨⟨fault, fails⟩, otherFault, otherFails⟩
  · rw [runs, otherRuns]
    exact .inl ⟨_, grown, otherGrown, rfl, rfl⟩
  · rw [fails, otherFails]
    exact .inr ⟨⟨fault, rfl⟩, otherFault, rfl⟩

/-! ## Trees with rows of branches -/

def rowCon : TyCon := ⟨0, "row"⟩

def treeCon : TyCon := ⟨1, "tree"⟩

def treeType : Ty Unit := .data treeCon []

/-- The declarations of rows, an alias of lists, and of trees, whose branches have a type that is still
to be spelled. -/
def treeDeclarations (branches : Ty SchemeVar) : Declarations where
  types :=
    ⟨[(1, .variant [] [("Leaf", .unit), ("Branch", branches)]),
      (0, .aliasOf ⟨[⟨0⟩], .list (.var (.bound ⟨0⟩))⟩)]⟩
  owners := ⟨[("Branch", treeCon), ("Leaf", treeCon)]⟩

def bareRow : Ty SchemeVar := .data rowCon [.data treeCon []]

def spelledRow : Ty SchemeVar := .synonym rowCon [.data treeCon []] (.list (.data treeCon []))

def rowMatch : Match where
  scrutinee := .data rowCon [.data treeCon []]
  branches := [⟨.nil, false⟩, ⟨.cons (.ctor "Branch" .wildcard) .wildcard, false⟩]
  span := ⟨0, 40⟩

def treeOutline (branches : Ty SchemeVar) : Environment :=
  (treeDeclarations branches).toEnvironment.outline .empty

theorem equates_row (branches : Ty SchemeVar) {Var : Type} [Inhabited Var] (element : Ty Var) :
    (treeOutline branches).Equates (.data rowCon [element]) (.list element) := by
  have equated : (treeOutline branches).Equates (.data rowCon [element])
      (Template.fill ⟨[⟨0⟩], .list (.var (.bound ⟨0⟩))⟩ [element]) :=
    Environment.equates_application rfl rfl rfl
  exact equated

theorem treeOutline_respells : (treeOutline spelledRow).Respells (treeOutline bareRow) where
  sameAliases := by
    funext con
    obtain ⟨number, name⟩ := con
    match number with
    | 0 | 1 | _ + 2 => rfl
  sameBodies := by
    funext con
    obtain ⟨number, name⟩ := con
    match number with
    | 0 | 1 | _ + 2 => rfl
  constructors := by
    rintro ⟨number, name⟩
    match number with
    | 0 | _ + 2 => exact .none
    | 1 => exact .some (.cons ⟨rfl, rfl, .refl _⟩ (.cons ⟨rfl, rfl, equates_row bareRow _⟩ .nil))

def treeTypes : List (Ty Unit) := [.data rowCon [treeType], .list treeType, treeType, .unit]

theorem treeTypes_showsUnits {branches : Ty SchemeVar}
    (isRow : branches = bareRow ∨ branches = spelledRow) :
    ∀ type ∈ treeTypes, (treeOutline branches).ShowsUnits type := by
  have rowRoot : (treeOutline branches).Root (.data rowCon [treeType]) (.list treeType) :=
    ⟨1, .behind rfl rfl rfl (.here rfl)⟩
  have listRoot : (treeOutline branches).Root (.list treeType) (.list treeType) :=
    Environment.root_self rfl
  have treeRoot : (treeOutline branches).Root treeType treeType := Environment.root_self rfl
  have unitRoot : (treeOutline branches).Root (.unit : Ty Unit) .unit := Environment.root_self rfl
  have ofTree : ∀ part ∈ (treeOutline branches).partsAt treeType, part ∈ treeTypes := by
    have unitAmong : .unit ∈ treeTypes := .tail _ (.tail _ (.tail _ (.head _)))
    rcases isRow with rfl | rfl
    · exact List.forall_mem_cons.mpr ⟨unitAmong, List.forall_mem_singleton.mpr (.head _)⟩
    · exact List.forall_mem_cons.mpr ⟨unitAmong, List.forall_mem_singleton.mpr (.tail _ (.head _))⟩
  have closed : ∀ type ∈ treeTypes, ∃ root ∈ treeTypes, (treeOutline branches).Root type root ∧
      ∀ part ∈ (treeOutline branches).partsAt root, part ∈ treeTypes := by
    have ofList : ∀ part ∈ (treeOutline branches).partsAt (.list treeType), part ∈ treeTypes :=
      List.forall_mem_singleton.mpr (.tail _ (.tail _ (.head _)))
    simp only [treeTypes, List.forall_mem_cons]
    exact ⟨⟨_, .tail _ (.head _), rowRoot, ofList⟩, ⟨_, .tail _ (.head _), listRoot, ofList⟩,
      ⟨_, .tail _ (.tail _ (.head _)), treeRoot, ofTree⟩,
      ⟨_, .tail _ (.tail _ (.tail _ (.head _))), unitRoot, List.forall_mem_nil _⟩, List.forall_mem_nil _⟩
  have onlyUnit : ∀ type ∈ treeTypes, (treeOutline branches).Root type .unit → type = .unit := by
    simp only [treeTypes, List.forall_mem_cons]
    refine ⟨?_, ?_, ?_, fun _ => trivial, List.forall_mem_nil _⟩
    · intro stands
      cases stands.unique rowRoot
    · intro stands
      cases stands.unique listRoot
    · intro stands
      cases stands.unique treeRoot
  intro type among found name payload reaches offered
  exact onlyUnit payload (Environment.mem_of_reaches closed among (.payload reaches offered))

def appliedRow : Ty MetaVar := .synonym rowCon [.data treeCon []] (.list (.data treeCon []))

/-- Rows of trees are checked alike whether the matched type and the payload have the name of the alias alone
or the alias together with lists of trees. -/
theorem rowMatch_respelled :
    ∃ verdict grown otherGrown,
      rowMatch.verdict (treeDeclarations bareRow).toEnvironment .bottom .empty {} = .ok (verdict, grown) ∧
      { rowMatch with scrutinee := appliedRow }.verdict (treeDeclarations spelledRow).toEnvironment .bottom
        .empty {} = .ok (verdict, otherGrown) ∧
      verdict.unmatched.kept = [.cons (.constant "Leaf") .wildcard] := by
  have closed : Store.empty.Closed := by decide
  have acyclic : Store.empty.Acyclic := Store.acyclic_of_entries (fun _ => 0) (by decide)
  have owned : (treeDeclarations bareRow).toEnvironment.OwnedBy .empty :=
    Declarations.ownedBy_of_closed closed (by decide)
  have otherOwned : (treeDeclarations spelledRow).toEnvironment.OwnedBy .empty :=
    Declarations.ownedBy_of_closed closed (by decide)
  have typeOwned : Store.empty.Owns rowMatch.scrutinee.leaves := Store.owns_nil
  have imageOwned : Store.empty.Owns appliedRow.leaves := Store.owns_nil
  have applied : (treeDeclarations bareRow).applyAlias .empty .bottom rowCon [.data treeCon []]
      = .ok (appliedRow, .empty) := rfl
  have equates := Declarations.equates_applyAlias acyclic owned
    (List.forall_mem_singleton.mpr Store.owns_nil) applied
  have alike := treeOutline_respells.spellsAlike equates (treeTypes_showsUnits (.inl rfl) _ (.head _))
    (treeTypes_showsUnits (.inr rfl) _ (.tail _ (.head _)))
  have runs : rowMatch.verdict (treeDeclarations bareRow).toEnvironment .bottom .empty {}
      = .ok (⟨⟨0, 40⟩, ⟨[.cons (.constant "Leaf") .wildcard], 0⟩, ⟨[], 0⟩, [0, 1], []⟩, .empty) := by
    cbv
  rcases verdict_respelled acyclic owned otherOwned typeOwned imageOwned treeOutline_respells alike .bottom
      {} with ⟨verdict, grown, otherGrown, first, second⟩ | ⟨⟨fault, fails⟩, _⟩
  · refine ⟨verdict, grown, otherGrown, first, second, ?_⟩
    cases runs.symm.trans first
    rfl
  · cases runs.symm.trans fails

/-! ## A payload that is an alias of unit -/

def nothingCon : TyCon := ⟨0, "nothing"⟩

def answerCon : TyCon := ⟨1, "answer"⟩

/-- The declarations of an alias of unit, and of answers whose first constructor has a payload that is
still to be spelled. -/
def answerDeclarations (payload : Ty SchemeVar) : Declarations where
  types :=
    ⟨[(1, .variant [] [("Done", payload), ("Later", .unit)]), (0, .aliasOf ⟨[], .unit⟩)]⟩
  owners := ⟨[("Later", answerCon), ("Done", answerCon)]⟩

def answerMatch : Match where
  scrutinee := .data answerCon []
  branches := [⟨.constant "Later", false⟩]
  span := ⟨0, 20⟩

/-- The missing case has a payload if that is the name of the alias alone, and none if the alias comes
together with the unit type that it stands for. -/
theorem answerMatch_spelling_shows :
    (answerMatch.verdict (answerDeclarations (.data nothingCon [])).toEnvironment .bottom .empty {}).map
        (fun result => result.1.unmatched.kept) = .ok [.applied "Done" .wildcard] ∧
      (answerMatch.verdict (answerDeclarations (.synonym nothingCon [] .unit)).toEnvironment .bottom
        .empty {}).map (fun result => result.1.unmatched.kept) = .ok [.constant "Done"] := by
  constructor <;> cbv

end Match

end TypedMatch
