import XrManifest.Proofs.Cpp.GuardedLines
import XrManifest.Proofs.Header.Calls
import XrManifest.Proofs.Header.Nesting
import XrManifest.Proofs.Header.TableEntries

/-!
# The first failure

A call of OpenXR that fails ends what a generated method does: in the text, outcomes are kept
and tables are filled in blocks for success only, and run as code, the method makes no call
after the first that fails. The main statement is `Manifest.header_stopsAtFailure`.
-/

namespace XrManifest.Cpp

open XrManifest.Header XrManifest.Text

/-! ## Statements by what they do and how they look -/

/-- A statement that can stand anywhere in a block for success. -/
structure Statement.Calm (statement : Statement) : Prop extends statement.Quiet where
  keeps : ¬ KeepsResult (trimEnd statement.text.toList)
  test : ¬ TestsSuccess (trimEnd statement.text.toList)

/-- A statement that can stand outside of the blocks for success. -/
structure Statement.Prepares (statement : Statement) : Prop extends statement.Quiet where
  harmless : HarmlessText statement.text

/-- What can stand outside of the blocks can stand inside of them. -/
theorem Statement.Prepares.calm {statement : Statement} (h : statement.Prepares) :
    statement.Calm :=
  ⟨h.toQuiet, h.harmless.keeps, h.harmless.test⟩

/-- What is kept is no test for success. -/
theorem Statement.Keeps.not_testsSuccess {statement : Statement} (h : statement.Keeps) :
    ¬ TestsSuccess (trimEnd statement.text.toList) := by
  obtain ⟨function, arguments, -, rfl⟩ := h
  have hfirst : FirstWord "result".toList ' ' "result = ".toList :=
    ⟨by decide +kernel, by decide, by decide, ['=', ' '], by decide⟩
  have htext : FirstWord "result".toList ' ' (keepResult function arguments).text.toList :=
    (FirstWord.append hfirst).append
  exact htext.not_testsSuccess (.inl (by decide))

/-- Code outside of the blocks for success prepares, and in such a block only the last statement
may keep an outcome. -/
def Code.Careful : Code → Prop
  | .statement line => line.Prepares
  | .blank => True
  | .branch guard body => guard = .when .succeeded ∧
    (∀ statement ∈ body.dropLast, statement.Calm) ∧
    ∀ statement ∈ body.getLast?, statement.Calm ∨ statement.Keeps

/-- Careful code makes its calls in blocks for success. -/
theorem Code.Careful.guarded {code : Code} (h : code.Careful) : code.Guarded := by
  cases code with
  | statement line => exact h.toQuiet
  | blank => trivial
  | branch guard body =>
    obtain ⟨hguard, hfront, hlast⟩ := h
    exact ⟨hguard, fun statement hmem => (hfront statement hmem).toQuiet,
      fun statement hmem => (hlast statement hmem).imp_left Statement.Calm.toQuiet⟩

/-- The lines of careful code show this. -/
theorem Code.Careful.layout {code : Code} (h : code.Careful) : code.layout.Guarded := by
  cases code with
  | statement line => exact .line h.harmless
  | blank => exact .blank
  | branch guard body =>
    obtain ⟨rfl, hfront, hlast⟩ := h
    refine .success (fun statement hmem => ?_) fun statement hmem => (hfront statement hmem).keeps
    rcases List.eq_nil_or_concat body with rfl | ⟨front, last, rfl⟩
    · cases hmem
    · rw [List.concat_eq_append] at hfront hlast hmem
      rcases List.mem_append.1 hmem with hmem | hmem
      · exact (hfront statement (by simpa using hmem)).test
      · rw [List.mem_singleton.1 hmem]
        rcases hlast last (by simp) with hcalm | hkeeps
        · exact hcalm.test
        · exact hkeeps.not_testsSuccess

/-- The body of a block for success that ends in a call. -/
theorem careful_ifSucceeded {front : List Statement} {last : Statement}
    (hfront : ∀ statement ∈ front, statement.Prepares) (hlast : last.Keeps) :
    (ifSucceeded (front ++ [last])).Careful := by
  refine ⟨rfl, ?_, ?_⟩
  · rw [List.dropLast_concat]
    exact fun statement hmem => (hfront statement hmem).calm
  · intro statement hmem
    rw [List.getLast?_concat, Option.mem_some_iff] at hmem
    exact .inr (hmem ▸ hlast)

/-! ## Kinds of statements -/

section
variable {object member type name tag : String}

theorem prepares_tagged (h : HarmlessStart (type ++ " ")) :
    (Statement.declare (.tagged type name tag)).Prepares :=
  ⟨⟨rfl, rfl, rfl⟩, (((h.append _).append _).append _).harmlessText⟩

theorem prepares_setMember {value : Operand} (h : HarmlessStart (object ++ ".")) :
    (setMember object member value).Prepares :=
  ⟨⟨rfl, rfl, rfl⟩, ((((h.append _).append _).append _).append _).harmlessText⟩

theorem prepares_copyText {text : String} : (copyText object member text).Prepares := by
  have hstart : HarmlessStart ("strcpy_s" ++ "(") := .of_check (by decide +kernel)
  have hnative : isNative "strcpy_s" = false := by decide
  have hcall : (copyText object member text).nativeCall? = none := by
    simp [copyText, Statement.nativeCall?, Statement.call?, hnative]
  exact ⟨⟨hcall, rfl, rfl⟩, (((hstart.append _).append _).append _).harmlessText⟩

theorem prepares_listed {elements : List Operand} :
    (Statement.declare (.listed type name elements)).Prepares := by
  have hstart : HarmlessStart "const " := .of_check (by decide +kernel)
  refine ⟨⟨rfl, rfl, rfl⟩, ?_⟩
  exact ((((((hstart.append _).append _).append _).append _).append _).append _).harmlessText

end

/-! ## Layouts of code -/

/-- A comparison is no test for success. -/
theorem harmless_comparison {text : String} (hstart : FirstWord "if".toList ' ' text.toList)
    (hequals : '=' ∈ text.toList) : HarmlessText text := by
  refine ⟨hstart.not_keepsResult (.inl (by decide)), hstart.not_assignsEntry (by decide), ?_⟩
  intro htest
  rw [TestsSuccess, hstart.content_trimEnd] at htest
  obtain ⟨tail, hblank, htext⟩ := exists_blanks text.toList
  rw [htext, htest, List.mem_append] at hequals
  rcases hequals with hmem | hmem
  · exact absurd hmem (by decide)
  · exact absurd (hblank _ hmem) (by decide)

/-- A branch that depends on anything else than success starts with a harmless line. -/
theorem harmless_guard {guard : Guard} (h : guard ≠ .when .succeeded) :
    HarmlessText guard.text := by
  have hif : FirstWord "if".toList ' ' "if (".toList :=
    ⟨by decide +kernel, by decide, by decide, ['('], by decide⟩
  have helse : HarmlessStart "else if (" := .of_check (by decide +kernel)
  cases guard with
  | otherwise => decide +kernel
  | otherwiseWhen condition => exact ((helse.append _).append _).harmlessText
  | when condition =>
    refine harmless_comparison (hif.append.append) ?_
    cases condition with
    | succeeded => exact absurd rfl h
    | equal left right => simp [Guard.text, Condition.text]
    | differ left right => simp [Guard.text, Condition.text]

/-- Code that keeps no outcome and does not test for success is harmless. -/
theorem guarded_code {code : Code} (hguards : ∀ guard ∈ code.guards, guard ≠ .when .succeeded)
    (hstatements : ∀ statement ∈ code.statements, HarmlessText statement.text) :
    code.layout.Guarded := by
  cases code with
  | statement line => exact .line (hstatements line List.mem_cons_self)
  | blank => exact .blank
  | branch guard body =>
    refine .block (harmless_guard (hguards guard List.mem_cons_self)) (.stack ?_)
    exact fun statement hstatement => .line (hstatements statement hstatement)

/-- A method is as guarded as its code. -/
theorem guarded_method {method : Method}
    (hresult : HarmlessStart ((match method.result with
      | some type => type ++ " "
      | none => "") ++ method.name ++ "("))
    (hbody : ∀ code ∈ method.body, code.layout.Guarded) : method.layout.Guarded :=
  .block (((hresult.append _).append _).append _).harmlessText (.stack hbody)

/-- A struct is as guarded as its methods, when its fields are harmless. -/
theorem guarded_struct {struct : Struct}
    (hfields : ∀ declaration ∈ struct.fields, HarmlessText declaration.text)
    (hmethods : ∀ method ∈ struct.methods, method.layout.Guarded)
    (hrecords : ∀ name fields, Member.record name fields ∈ struct.members →
      ∀ declaration ∈ fields, HarmlessText declaration.text) : struct.layout.Guarded := by
  have hstruct : ∀ name : String, HarmlessText ("struct " ++ name) := by
    intro name
    have hstart : HarmlessStart "struct " := .of_check (by decide +kernel)
    exact (hstart.append name).harmlessText
  refine .declaration (hstruct struct.name) (.stack ?_)
  intro member hmember
  cases member with
  | blank => exact .blank
  | field declaration => exact .line (hfields declaration (Struct.mem_fields.2 hmember))
  | method method => exact hmethods method (Struct.mem_methods.2 hmember)
  | record name fields =>
    refine .declaration (hstruct name) (.stack ?_)
    exact fun declaration hmem => .line (hrecords name fields hmember declaration hmem)

end XrManifest.Cpp

namespace XrManifest.Header

open XrManifest.Cpp XrManifest.Naming XrManifest.Text

variable {style : Style} {plan : Plan}

/-! ## Methods that make calls -/

theorem harmless_returnResult : HarmlessText returnResult.text := by
  have hstart : HarmlessStart "return " := .of_check (by decide +kernel)
  exact ((hstart.append _).append _).harmlessText

theorem keeps_resolvePath (path target : String) : (resolvePath path target).Keeps :=
  ⟨"xrStringToPath", _, by decide, rfl⟩

theorem careful_resolvePath (path target : String) :
    (ifSucceeded [resolvePath path target]).Careful := by
  have hcareful : (ifSucceeded ([] ++ [resolvePath path target])).Careful :=
    careful_ifSucceeded (by simp) (keeps_resolvePath path target)
  exact hcareful

/-- A method that starts with preparations and the first value of `result`, goes on with careful
code, and returns `result`. -/
structure Careful (method : Method) (front : List Statement) (first : Statement)
    (codes : List Code) : Prop where
  result : method.result = some "XrResult"
  body : method.body =
    (front ++ [first]).map .statement ++ (codes ++ [.statement returnResult])
  front : ∀ statement ∈ front, statement.Prepares
  first : first.Begins
  codes : ∀ code ∈ codes, code.Careful

namespace Careful

variable {method : Method} {front : List Statement} {first : Statement} {codes : List Code}

/-- A careful method stops at the first failure. -/
theorem stopsAtFailure (h : Careful method front first codes) : method.StopsAtFailure := by
  have hshape : method.Shape front first codes [.statement returnResult] :=
    { body := h.body
      front := fun statement hmem => (h.front statement hmem).toQuiet
      first := h.first
      codes := fun code hmem => (h.codes code hmem).guarded }
  exact Method.stopsAtFailure hshape

/-- The lines of a careful method are guarded. -/
theorem guarded (h : Careful method front first codes) : method.layout.Guarded := by
  have htype : HarmlessStart ("XrResult" ++ " ") := .of_check (by decide +kernel)
  apply guarded_method
  · rw [h.result]
    exact (htype.append _).append _
  · intro code hcode
    have hfirst : HarmlessText first.text := by
      rcases h.first with rfl | ⟨function, arguments, -, rfl⟩
      · exact ((((htype.append _).append _).append _).append _).harmlessText
      · exact ((((htype.append _).append _).append _).append _).harmlessText
    rw [h.body, List.map_append] at hcode
    simp only [List.mem_append, List.mem_map, List.mem_singleton] at hcode
    rcases hcode with (⟨statement, hmem, rfl⟩ | ⟨_, rfl, rfl⟩) | hmem | rfl
    · exact .line (h.front statement hmem).harmless
    · exact .line hfirst
    · exact (h.codes code hmem).layout
    · exact .line harmless_returnResult

end Careful

/-- Of all that is done for an action only the last call keeps its outcome. -/
theorem careful_createAction (action : ActionPlan) :
    (ifSucceeded (createAction style action)).Careful := by
  have hinfo : HarmlessStart ("actionCreateInfo" ++ ".") := .of_check (by decide +kernel)
  have htype : HarmlessStart ("XrActionCreateInfo" ++ " ") := .of_check (by decide +kernel)
  apply careful_ifSucceeded
  · intro statement h
    simp only [List.mem_append, List.mem_ite_nil_left, List.mem_cons, List.not_mem_nil,
      or_false] at h
    rcases h with (⟨-, rfl⟩ | rfl | rfl | rfl | rfl) | ⟨-, rfl | rfl⟩
    · exact prepares_listed
    · exact prepares_tagged htype
    · exact prepares_setMember hinfo
    · exact prepares_copyText
    · exact prepares_copyText
    · exact prepares_setMember hinfo
    · exact prepares_setMember hinfo
  · exact ⟨"xrCreateAction", _, by decide, rfl⟩

/-- The statements in front of the call that creates the action set. -/
theorem createSet_eq (style : Style) (set : ActionSet) :
    ∃ front first, createSet style set = front ++ [first] ∧
    (∀ statement ∈ front, statement.Prepares) ∧ first.Begins := by
  have hinfo : HarmlessStart ("actionSetInfo" ++ ".") := .of_check (by decide +kernel)
  have htype : HarmlessStart ("XrActionSetCreateInfo" ++ " ") := .of_check (by decide +kernel)
  refine ⟨(createSet style set).dropLast, _, rfl, ?_, .inr ⟨"xrCreateActionSet", _, by decide, rfl⟩⟩
  intro statement h
  simp only [createSet, List.dropLast_cons_cons, List.dropLast_singleton, List.mem_cons,
    List.not_mem_nil, or_false] at h
  rcases h with rfl | rfl | rfl | rfl
  · exact prepares_tagged htype
  · exact prepares_copyText
  · exact prepares_copyText
  · exact prepares_setMember hinfo

/-- No action is created once a call has failed. -/
theorem createHandles_stops : (createHandles style plan).StopsAtFailure ∧
    (createHandles style plan).layout.Guarded := by
  obtain ⟨front, first, hset, hfront, hfirst⟩ := createSet_eq style plan.set
  have hcodes : ∀ code ∈ plan.hands.flatMap (fun hand =>
        [.blank, ifSucceeded [resolvePath hand.userPath (handPath style hand)]]) ++
      plan.actions.flatMap (fun action => [.blank, ifSucceeded (createAction style action)]) ++
      [.blank], code.Careful := by
    intro code h
    simp only [List.mem_append, List.mem_flatMap, List.mem_cons, List.not_mem_nil,
      or_false] at h
    rcases h with (⟨hand, -, rfl | rfl⟩ | ⟨action, -, rfl | rfl⟩) | rfl
    · trivial
    · exact careful_resolvePath _ _
    · trivial
    · exact careful_createAction action
    · trivial
  have hcareful : Careful (createHandles style plan) front first _ :=
    ⟨rfl, by simp [createHandles, hset], hfront, hfirst, hcodes⟩
  exact ⟨hcareful.stopsAtFailure, hcareful.guarded⟩

theorem careful_fetchState (action : Action) {type : ActionType} {access : StateAccess}
    (haccess : type.stateAccess? = some access) (subaction : Subaction) :
    (ifSucceeded (fetchState style action access subaction)).Careful := by
  have hinfo : HarmlessStart ("actionStateGetInfo" ++ ".") := .of_check (by decide +kernel)
  have hgetter : isNative access.getter = true := by
    have hall : ∀ found ∈ type.stateAccess?, isNative found.getter = true := by
      cases type <;> decide
    exact hall access haccess
  have hstatements : ∃ first second, fetchState style action access subaction =
      [setMember "actionStateGetInfo" "action" first,
        setMember "actionStateGetInfo" "subactionPath" second] ++
      [keepResult access.getter [.word "session", .address "actionStateGetInfo",
        .address (stateField style action.name subaction)]] := ⟨_, _, rfl⟩
  obtain ⟨first, second, hstatements⟩ := hstatements
  rw [hstatements]
  apply careful_ifSucceeded
  · intro statement h
    simp only [List.mem_cons, List.not_mem_nil, or_false] at h
    rcases h with rfl | rfl
    · exact prepares_setMember hinfo
    · exact prepares_setMember hinfo
  · exact ⟨access.getter, _, hgetter, rfl⟩

/-- No state is fetched once a call has failed. -/
theorem updateStates_stops : (updateStates style plan).StopsAtFailure ∧
    (updateStates style plan).layout.Guarded := by
  have htype : HarmlessStart ("XrActionStateGetInfo" ++ " ") := .of_check (by decide +kernel)
  have hfront : ∀ statement ∈ [Statement.declare (.tagged "XrActionStateGetInfo"
      "actionStateGetInfo" "XR_TYPE_ACTION_STATE_GET_INFO")], statement.Prepares :=
    List.forall_mem_singleton.2 (prepares_tagged htype)
  have hcodes : ∀ code ∈ (accessedInputs plan.actions).flatMap (fun input =>
      input.1.subactions.flatMap fun subaction =>
        [.blank, ifSucceeded (fetchState style input.1.action input.2 subaction)]),
      code.Careful := by
    intro code h
    obtain ⟨⟨input, access⟩, hinput, hmem⟩ := List.mem_flatMap.1 h
    obtain ⟨subaction, -, hmem⟩ := List.mem_flatMap.1 hmem
    simp only [List.mem_cons, List.not_mem_nil, or_false] at hmem
    rcases hmem with rfl | rfl
    · trivial
    · exact careful_fetchState _ (mem_accessedInputs.1 hinput).2 subaction
  have hcareful : Careful (updateStates style plan) _ startResult _ :=
    ⟨rfl, rfl, hfront, .inl rfl, hcodes⟩
  exact ⟨hcareful.stopsAtFailure, hcareful.guarded⟩

theorem careful_suggestTable (profile : ProfileBindings) :
    (ifSucceeded (suggestTable style profile)).Careful := by
  have hinfo : HarmlessStart ("interactionSuggestedBindings" ++ ".") :=
    .of_check (by decide +kernel)
  have htype : HarmlessStart ("XrInteractionProfileSuggestedBinding" ++ " ") :=
    .of_check (by decide +kernel)
  have hstatements : ∃ front, suggestTable style profile = front ++
      [keepResult "xrSuggestInteractionProfileBindings"
        [.word "instance", .address "interactionSuggestedBindings"]] ∧
      ∀ statement ∈ front, statement.Prepares := by
    refine ⟨(suggestTable style profile).dropLast, rfl, ?_⟩
    intro statement h
    simp only [suggestTable, List.dropLast_cons_cons, List.dropLast_singleton, List.mem_cons,
      List.not_mem_nil, or_false] at h
    rcases h with rfl | rfl | rfl | rfl
    · exact prepares_tagged htype
    · exact prepares_setMember hinfo
    · exact prepares_setMember hinfo
    · exact prepares_setMember hinfo
  obtain ⟨front, hstatements, hfront⟩ := hstatements
  rw [hstatements]
  exact careful_ifSucceeded hfront ⟨_, _, by decide, rfl⟩

/-- No table is submitted once a call has failed. -/
theorem suggestTables_stops : (suggestTables style plan).StopsAtFailure ∧
    (suggestTables style plan).layout.Guarded := by
  have hcodes : ∀ code ∈ plan.set.profiles.flatMap (fun profile =>
      [.blank, ifSucceeded (suggestTable style profile)]) ++ [.blank], code.Careful := by
    intro code h
    simp only [List.mem_append, List.mem_flatMap, List.mem_cons, List.not_mem_nil,
      or_false] at h
    rcases h with ⟨profile, -, rfl | rfl⟩ | rfl
    · trivial
    · exact careful_suggestTable profile
    · trivial
  have hcareful : Careful (suggestTables style plan) [] startResult _ :=
    ⟨rfl, by simp [suggestTables], by simp, .inl rfl, hcodes⟩
  exact ⟨hcareful.stopsAtFailure, hcareful.guarded⟩

/-! ## The method that fills the tables -/

theorem prepares_declarePath (path : String) : (declarePath style path).Prepares := by
  have htype : HarmlessStart ("XrPath" ++ " ") := .of_check (by decide +kernel)
  exact ⟨⟨rfl, rfl, rfl⟩, ((((htype.append _).append _).append _).append _).harmlessText⟩

/-- An entry is assigned in a line that starts with its table and a bracket. -/
theorem calm_entry {table : String} {index : Nat} {items : List Operand}
    (htable : table.toList.all isIdentifierChar = true) :
    (Statement.assign (.entry table index) (.braces items)).Calm := by
  have hstart : FirstWord table.toList '[' (table ++ "[").toList :=
    ⟨htable, by decide, fun _ => by decide, [], by rw [String.toList_append]; rfl⟩
  have htext : FirstWord table.toList '['
      (Statement.assign (.entry table index) (.braces items)).text.toList :=
    hstart.append.append.append.append.append
  exact ⟨⟨rfl, rfl, rfl⟩, htext.not_keepsResult (.inr (by decide)),
    htext.not_testsSuccess (.inr (by decide))⟩

theorem calm_fillTable {profile : ProfileBindings} {statement : Statement}
    (h : statement ∈ fillTable style profile) : statement.Calm := by
  obtain ⟨index, hindex, rfl⟩ := List.mem_mapIdx.1 h
  apply calm_entry
  rw [List.all_eq_true]
  exact fun c hc => Style.mem_rename hc

/-- The entries of all tables are assigned in one block for success. -/
theorem careful_fillTables (profiles : List ProfileBindings) :
    (ifSucceeded (profiles.flatMap (fillTable style))).Careful := by
  have hcalm : ∀ statement ∈ profiles.flatMap (fillTable style), statement.Calm := by
    intro statement h
    obtain ⟨profile, -, hmem⟩ := List.mem_flatMap.1 h
    exact calm_fillTable hmem
  exact ⟨rfl, fun statement hmem => hcalm statement (List.mem_of_mem_dropLast hmem),
    fun statement hmem => .inl (hcalm statement (List.mem_of_getLast? hmem))⟩

/-- What `Initialize` does in front of the entries of the tables, piece by piece. -/
def findPathsCode (style : Style) (plan : Plan) : List Code :=
  [.blank] ++
  plan.set.profiles.map (fun profile =>
    ifSucceeded [resolvePath profile.profile (profilePath style profile.profile)]) ++
  [.blank] ++ plan.paths.map (fun path => .statement (declarePath style path)) ++
  plan.paths.map (fun path => ifSucceeded [findPath style path]) ++ [.blank]

theorem careful_findPathsCode : ∀ code ∈ findPathsCode style plan, code.Careful := by
  intro code h
  simp only [findPathsCode, List.mem_append, List.mem_map, List.mem_singleton] at h
  rcases h with ((((rfl | ⟨profile, -, rfl⟩) | rfl) | ⟨path, -, rfl⟩) | ⟨path, -, rfl⟩) | rfl
  · trivial
  · exact careful_resolvePath _ _
  · trivial
  · exact prepares_declarePath path
  · exact careful_resolvePath _ _
  · trivial

theorem statements_findPathsCode :
    ([] ++ [startResult]) ++ (findPathsCode style plan).flatMap Code.statements =
      findPaths style plan := by
  simp [findPathsCode, findPaths, Code.statements, ifSucceeded, List.map_eq_flatMap,
    List.flatMap_assoc]

/-- `Initialize` finds the paths, and then fills the tables in one block for success. -/
theorem createTables_shape : (createTables style plan).Shape [] startResult
    (findPathsCode style plan)
    [ifSucceeded (plan.set.profiles.flatMap (fillTable style)), .blank,
      .statement returnResult] where
  body := by simp [createTables, findPathsCode, declarePath, findPath]
  front := by simp
  first := .inl rfl
  codes := fun code hmem => (careful_findPathsCode code hmem).guarded

/-- No entry is assigned once a path has not been found. -/
theorem createTables_stops : (createTables style plan).StopsAtFailure ∧
    (createTables style plan).layout.Guarded := by
  have hcodes : ∀ code ∈ findPathsCode style plan ++
      [ifSucceeded (plan.set.profiles.flatMap (fillTable style)), .blank], code.Careful := by
    intro code h
    simp only [List.mem_append, List.mem_cons, List.not_mem_nil, or_false] at h
    rcases h with hmem | rfl | rfl
    · exact careful_findPathsCode code hmem
    · exact careful_fillTables _
    · trivial
  have hbody : (createTables style plan).body =
      ([] ++ [startResult]).map .statement ++ ((findPathsCode style plan ++
        [ifSucceeded (plan.set.profiles.flatMap (fillTable style)), .blank]) ++
        [.statement returnResult]) := by
    rw [createTables_shape.body, List.append_assoc]
    rfl
  have hcareful : Careful (createTables style plan) [] startResult _ :=
    ⟨rfl, hbody, by simp, .inl rfl, hcodes⟩
  exact ⟨hcareful.stopsAtFailure, hcareful.guarded⟩

/-- All calls of OpenXR stand in front of the entries, and each finds a path. -/
theorem nativeCalls_createTables :
    nativeCalls (createTables style plan).statements = nativeCalls (findPaths style plan) ∧
      ∀ call ∈ nativeCalls (findPaths style plan), call.1 = "xrStringToPath" := by
  constructor
  · have hnone : nativeCalls (plan.set.profiles.flatMap (fillTable style) ++ [returnResult]) =
        [] := by
      rw [nativeCalls_append]
      refine List.append_eq_nil_iff.2 ⟨nativeCalls_of_quiet fun statement h => ?_, rfl⟩
      obtain ⟨profile, -, hmem⟩ := List.mem_flatMap.1 h
      exact (calm_fillTable hmem).toQuiet
    rw [createTables_statements, nativeCalls_append, hnone, List.append_nil]
  · intro call h
    obtain ⟨statement, hstatement, hcall⟩ := List.mem_filterMap.1 h
    rcases eq_of_mem_findPaths hstatement with rfl | ⟨path, -, rfl⟩ | ⟨path, target, rfl⟩
    · cases hcall
    · cases hcall
    · simp [resolvePath, keepResult, Statement.nativeCall?, Statement.call?] at hcall
      rw [← hcall.1]

/-- There is one call for each profile and each path. -/
theorem length_nativeCalls_createTables :
    (nativeCalls (createTables style plan).statements).length =
      plan.set.profiles.length + plan.paths.length := by
  have hnative : isNative "xrStringToPath" = true := by decide
  have hprofiles : (nativeCalls (plan.set.profiles.map fun suggested =>
      resolvePath suggested.profile (profilePath style suggested.profile))).length =
        plan.set.profiles.length := by
    simp [nativeCalls, resolvePath, keepResult, Statement.nativeCall?, Statement.call?, hnative]
  have hpaths : (nativeCalls (plan.paths.map (findPath style))).length = plan.paths.length := by
    simp [nativeCalls, findPath, resolvePath, keepResult, Statement.nativeCall?,
      Statement.call?, hnative]
  have hdeclare : nativeCalls (plan.paths.map (declarePath style)) = [] := by
    refine nativeCalls_of_quiet fun statement h => ?_
    obtain ⟨path, -, rfl⟩ := List.mem_map.1 h
    exact (prepares_declarePath path).toQuiet
  have hstart : ∀ rest, nativeCalls (startResult :: rest) = nativeCalls rest := fun rest => rfl
  rw [nativeCalls_createTables.1, findPaths, List.cons_append, hstart, nativeCalls_append,
    nativeCalls_append, hdeclare, List.nil_append, List.length_append, hprofiles, hpaths]

/-- Once a path is not found, no entry is assigned. -/
theorem entriesOf_of_failure {world : Surroundings} {index : Nat}
    (hbound : index < (nativeCalls (createTables style plan).statements).length)
    (hfailed : ¬ Succeeded (world.answer index)) :
    entriesOf ((createTables style plan).run world).done = [] := by
  obtain ⟨first, hfirst, hfailure⟩ := exists_firstFailure hfailed
  rw [nativeCalls_createTables.1] at hbound
  have hdone := Method.done_of_failure world createTables_shape
    (statements_findPathsCode ▸ Nat.lt_of_le_of_lt hfirst hbound) hfailure
  rw [statements_findPathsCode] at hdone
  have hnone : entriesOf (findPaths style plan ++ [returnResult]) = [] := by
    rw [entriesOf_append, entriesOf_findPaths]
    rfl
  rw [entriesOf, List.filterMap_eq_nil_iff] at hnone ⊢
  exact fun statement hmem => hnone statement (hdone hmem)

/-! ## Structs -/

theorem harmless_tagged {type name tag : String} (h : HarmlessStart (type ++ " ")) :
    HarmlessText (Declaration.tagged type name tag).text :=
  (((h.append _).append _).append _).harmlessText

theorem guarded_destructor (set : ActionSet) : (destructor style set).layout.Guarded := by
  have htilde : HarmlessStart "~" := .of_check (by decide +kernel)
  have hvoid : HarmlessStart "(void)" := .of_check (by decide +kernel)
  apply guarded_method
  · rw [destructor, String.empty_append]
    exact (htilde.append _).append _
  · intro code hcode
    rw [List.mem_singleton.1 hcode]
    apply guarded_code
    · exact List.forall_mem_singleton.2 (by simp)
    · exact List.forall_mem_singleton.2 ((hvoid.append _).append _).harmlessText

theorem guarded_createSpace (action : Action) (subaction : Subaction) :
    (createSpace style action subaction).layout.Guarded := by
  have hresult : HarmlessStart ("XrResult" ++ " ") := .of_check (by decide +kernel)
  have htype : HarmlessStart ("XrActionSpaceCreateInfo" ++ " ") := .of_check (by decide +kernel)
  have hinfo : HarmlessStart ("actionSpaceInfo" ++ ".") := .of_check (by decide +kernel)
  have hreturn : HarmlessStart "return " := .of_check (by decide +kernel)
  have horientation : HarmlessText (Statement.assign
      (.field (.field (memberOf "actionSpaceInfo" "poseInActionSpace") "orientation") "w")
      (.operand (.word "1.0f"))).text := by decide +kernel
  apply guarded_method
  · exact (hresult.append _).append _
  · intro code hcode
    obtain ⟨statement, hstatement, rfl⟩ := List.mem_map.1 hcode
    refine .line ?_
    simp only [List.mem_append, List.mem_cons, List.not_mem_nil, or_false] at hstatement
    rcases hstatement with ((rfl | rfl | rfl) | hhand) | rfl
    · exact harmless_tagged htype
    · exact (prepares_setMember hinfo).harmless
    · exact horientation
    · cases subaction with
      | whole => cases hhand
      | hand hand =>
        rw [List.mem_singleton.1 hhand]
        exact (prepares_setMember hinfo).harmless
    · exact ((hreturn.append _).append _).harmlessText

/-- The struct that owns the set is guarded. -/
theorem guarded_handles : (handles style plan).layout.Guarded := by
  apply guarded_struct
  · intro declaration hdeclaration
    rcases mem_fields_handles.1 hdeclaration with rfl | ⟨action, -, rfl⟩ | ⟨hand, -, rfl⟩
    · exact harmless_tagged (.of_check (by decide +kernel))
    · exact harmless_tagged (.of_check (by decide +kernel))
    · exact harmless_tagged (.of_check (by decide +kernel))
  · intro method hmethod
    rcases mem_methods_handles.1 hmethod with rfl | rfl | ⟨_, -, -, subaction, -, rfl⟩
    · exact guarded_destructor plan.set
    · exact createHandles_stops.2
    · exact guarded_createSpace _ subaction
  · intro name fields hrecord
    simp [handles, createSpaces] at hrecord

/-- The branches for hands compare paths and call nothing. -/
theorem guarded_getHandStates : (getHandStates style plan).layout.Guarded := by
  have hresult : HarmlessStart ("SubactionStates" ++ " ") := .of_check (by decide +kernel)
  have hreturn : HarmlessStart "return " := .of_check (by decide +kernel)
  apply guarded_method
  · exact (hresult.append _).append _
  · intro code hcode
    apply guarded_code
    · -- the branches compare paths
      intro guard hguard hsucceeded
      simp only [getHandStates, List.mem_append, List.mem_singleton] at hcode
      rcases hcode with hcode | rfl
      · split at hcode
        · cases hcode
        · rcases List.mem_cons.1 hcode with rfl | hcode
          · rw [List.mem_singleton.1 hguard] at hsucceeded
            cases hsucceeded
          · obtain ⟨hand, -, rfl⟩ := List.mem_map.1 hcode
            rw [List.mem_singleton.1 hguard] at hsucceeded
            cases hsucceeded
      · rw [List.mem_singleton.1 hguard] at hsucceeded
        cases hsucceeded
    · intro statement hstatement
      have hmem : statement ∈ (getHandStates style plan).statements :=
        List.mem_flatMap.2 ⟨code, hcode, hstatement⟩
      rcases getHandStates_statement hmem with rfl | ⟨hand, -, rfl⟩
      · decide +kernel
      · exact ((hreturn.append _).append _).harmlessText

/-- The type of a state is a word of its own. -/
theorem start_stateAccess {type : ActionType} {access : StateAccess}
    (h : type.stateAccess? = some access) : HarmlessStart (access.type ++ " ") := by
  have hall : ∀ found ∈ type.stateAccess?, HarmlessStart.check (found.type ++ " ") = true := by
    cases type <;> decide +kernel
  exact .of_check (hall access h)

theorem guarded_states : (states style plan).layout.Guarded := by
  apply guarded_struct
  · intro declaration hdeclaration
    rw [mem_stateFields] at hdeclaration
    obtain ⟨⟨input, access⟩, hinput, hfield⟩ := List.mem_flatMap.1 hdeclaration
    obtain ⟨subaction, -, rfl⟩ := List.mem_map.1 hfield
    exact harmless_tagged (start_stateAccess (mem_accessedInputs.1 hinput).2)
  · intro method hmethod
    rcases mem_methods_states hmethod with rfl | rfl
    · exact updateStates_stops.2
    · exact guarded_getHandStates
  · intro name fields hrecord declaration hdeclaration
    have hpath : HarmlessStart ("XrPath" ++ " ") := .of_check (by decide +kernel)
    have hconst : HarmlessStart "const " := .of_check (by decide +kernel)
    simp only [states, List.mem_append, List.mem_ite_nil_right, List.mem_ite_nil_left,
      List.mem_cons, List.mem_map, List.not_mem_nil, reduceCtorEq, and_false, or_false,
      exists_false] at hrecord
    obtain ⟨-, rfl⟩ := Member.record.inj hrecord.2
    rcases List.mem_cons.1 hdeclaration with rfl | hpointer
    · exact ((((hpath.append _).append _).append _).append _).harmlessText
    · obtain ⟨⟨input, access⟩, -, rfl⟩ := List.mem_map.1 hpointer
      exact (((((((hconst.append _).append _).append _).append _).append _).append _).append
        _).harmlessText

theorem guarded_tables : (tables style plan).layout.Guarded := by
  apply guarded_struct
  · intro declaration hdeclaration
    rcases mem_fields_tables.1 hdeclaration with ⟨profile, -, rfl⟩ | ⟨profile, -, rfl⟩
    · have hstart : HarmlessStart ("XrPath" ++ " ") := .of_check (by decide +kernel)
      exact ((hstart.append _).append _).harmlessText
    · have hstart : HarmlessStart ("XrActionSuggestedBinding" ++ " ") :=
        .of_check (by decide +kernel)
      exact ((((hstart.append _).append _).append _).append _).harmlessText
  · intro method hmethod
    rcases mem_methods_tables.1 hmethod with rfl | rfl
    · exact createTables_stops.2
    · exact suggestTables_stops.2
  · intro name fields hrecord
    simp [tables] at hrecord

/-- What the methods of an action set do when a call fails. -/
structure SetStructs.StopsAtFailure (structs : SetStructs) : Prop where
  handles : ∃ method, structs.handles.method? "Initialize" = some method ∧
    method.StopsAtFailure
  states : ∃ method, structs.states.method? "UpdateActionStates" = some method ∧
    method.StopsAtFailure
  suggests : ∃ method,
    structs.tables.method? "SuggestInteractionProfileBindings" = some method ∧
      method.StopsAtFailure
  /-- The tables are filled when all paths were found, and otherwise no entry is assigned. -/
  tables : ∃ method, structs.tables.method? "Initialize" = some method ∧
    method.StopsAtFailure ∧
    (∀ call ∈ nativeCalls method.statements, call.1 = "xrStringToPath") ∧
    ∀ world : Surroundings,
      ((∀ index < (nativeCalls method.statements).length, Succeeded (world.answer index)) →
        entriesOf (method.run world).done = entriesOf method.statements) ∧
      ∀ index < (nativeCalls method.statements).length, ¬ Succeeded (world.answer index) →
        entriesOf (method.run world).done = []

/-- Each of the four methods that call OpenXR stops at the first failure. -/
theorem stopsAtFailure_ofPlan : (SetStructs.ofPlan style plan).StopsAtFailure where
  handles := ⟨_, method?_handles, createHandles_stops.1⟩
  states := ⟨_, method?_states, updateStates_stops.1⟩
  suggests := ⟨_, method?_suggestTables, suggestTables_stops.1⟩
  tables := by
    refine ⟨_, method?_tables, createTables_stops.1, ?_, fun world => ⟨fun hsucceeded => ?_, ?_⟩⟩
    · rw [nativeCalls_createTables.1]
      exact nativeCalls_createTables.2
    · rw [(createTables_stops.1.succeeds world hsucceeded).1]
    · exact fun index hbound hfailed => entriesOf_of_failure hbound hfailed

theorem SetStructs.guarded (plan : Plan) : (SetStructs.ofPlan style plan).layout.Guarded := by
  refine .stack fun struct hstruct => .append .blank ?_
  simp only [SetStructs.toList, SetStructs.ofPlan, List.mem_cons, List.not_mem_nil,
    or_false] at hstruct
  rcases hstruct with rfl | rfl | rfl
  · exact guarded_handles
  · exact guarded_states
  · exact guarded_tables

end XrManifest.Header

namespace XrManifest

open XrManifest.Cpp XrManifest.Naming

variable {style : Style} {manifest : Manifest}

/-- The lines of a header are guarded. -/
theorem Header.guarded {header : Header} (h : Header.ofManifest style manifest = .ok header) :
    header.layout.Guarded := by
  obtain ⟨plans, -, hsets⟩ := Header.ofManifest_eq_ok.1 h
  refine .append (.append (.line (by decide +kernel)) .blank) (.stack ?_)
  intro structs hstructs
  rw [hsets] at hstructs
  obtain ⟨plan, -, rfl⟩ := List.mem_map.1 hstructs
  exact Header.SetStructs.guarded plan

/-- In the text of a header, outcomes are kept in the end of blocks for success, once in each,
and tables are filled in such blocks only. Its methods make no call after the first that
fails, and fill the tables only when all paths were found. -/
theorem Manifest.header_stopsAtFailure {text : String} (h : manifest.header style = .ok text) :
    GuardedText (linesOf text.toList) ∧
      ∃ header, Header.ofManifest style manifest = .ok header ∧ header.text = text ∧
        List.Forall₂ (fun set structs =>
            structs.handles.name = Header.handlesStruct style set.name ∧
              structs.StopsAtFailure)
          manifest.actionSets header.sets := by
  obtain ⟨header, hheader, htext, hsets⟩ := Manifest.header_plans
    (P := fun set structs => structs.handles.name = Header.handlesStruct style set.name ∧
      structs.StopsAtFailure)
    (fun set _ plan hplan => by
      rw [← (Plan.ofActionSet_eq_ok hplan).1]
      exact ⟨rfl, Header.stopsAtFailure_ofPlan⟩) h
  refine ⟨?_, header, hheader, htext, hsets⟩
  rw [← htext]
  exact (Header.guarded hheader).guardedText (Header.fits hheader)

/-- Of the three paths of a set, the second is not found: the third is not looked for, and the
table stays empty. -/
theorem Manifest.header_stopsAtFailure_secondPath :
    ∃ (manifest : Manifest) (header : Header) (structs : Header.SetStructs) (method : Method)
        (world : Surroundings),
      manifest.header .pascal = .ok header.text ∧ GuardedText (linesOf header.text.toList) ∧
      header.sets = [structs] ∧ structs.tables.method? "Initialize" = some method ∧
      (nativeCalls method.statements).length = 3 ∧ (method.run world).calls.length = 2 ∧
      (method.run world).returned = some (-13) ∧
      Header.entriesOf (method.run world).done = [] := by
  let suggested : ProfileBindings := ⟨"/interaction_profiles/any",
    ⟨[("grab", ["/user/hand/left/input/x", "/user/hand/right/input/x"])], by decide⟩⟩
  let set : ActionSet := ⟨"play", "Play", 0, [⟨"grab", "Grab", .float, true⟩], [suggested]⟩
  let world : Surroundings := ⟨fun index => if index = 1 then -13 else 0, fun _ _ => 0, 0⟩
  have hfailure : FirstFailure world.answer 1 := ⟨by decide, by decide⟩
  obtain ⟨plan, hplan⟩ : ∃ plan, Plan.ofActionSet set = .ok plan := ⟨_, rfl⟩
  obtain ⟨text, hheader⟩ := exists_header_singleton .pascal hplan
  obtain ⟨hguarded, header, hof, rfl, hsets⟩ := header_stopsAtFailure hheader
  obtain ⟨structs, hstructs, hall⟩ := forall₂_singleton_left_iff.1 hsets
  obtain ⟨method, hmethod, hstops, -, htables⟩ := hstructs.2.tables
  have hcount : (nativeCalls method.statements).length = 3 := by
    obtain ⟨plans, hplans, hofPlans⟩ := Header.ofManifest_eq_ok.1 hof
    rcases Except.ok.inj ((mapM_eq_ok.2 (.cons hplan .nil)).symm.trans hplans) with rfl
    obtain ⟨rfl, -⟩ := List.cons.inj (hofPlans.symm.trans hall)
    rcases Option.some.inj (Header.method?_tables.symm.trans hmethod) with rfl
    obtain ⟨hset, -, -, hpaths⟩ := Plan.ofActionSet_eq_ok hplan
    have hlength : set.distinctPaths.length = 2 := by
      rw [ActionSet.distinctPaths, List.length_mergeSort]
      decide +kernel
    rw [Header.length_nativeCalls_createTables, hpaths, hset, hlength]
    rfl
  have hbound : 1 < (nativeCalls method.statements).length := by omega
  obtain ⟨hcalls, hreturned⟩ := hstops.fails world 1 hbound hfailure
  refine ⟨⟨[set]⟩, header, structs, method, world, hheader, hguarded, hall, hmethod, hcount,
    ?_, hreturned, (htables world).2 1 hbound hfailure.failed⟩
  rw [hcalls, List.length_take, hcount]
  rfl

end XrManifest
