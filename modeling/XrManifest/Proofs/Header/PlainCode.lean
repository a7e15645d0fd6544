import XrManifest.Proofs.Cpp.Spelling
import XrManifest.Proofs.Header.Structs
import XrManifest.Proofs.Naming.Characters

/-!
# The spelling of a header

The texts of a manifest come into the code of a header as identifiers and as literals only.
The main statement is `SetStructs.plain`: the structs of an action set are plain code.
-/

namespace XrManifest.Header

open XrManifest.Cpp XrManifest.Naming XrManifest.Text

variable {style : Style} {plan : Plan}

/-! ## Identifiers -/

/-- An identifier can be a name, whatever it is made from. -/
theorem isName_rename (fragments : List String) : IsName (style.rename fragments) := by
  have hnone : marks.any isIdentifierChar = false := by decide +kernel
  rw [IsName, List.all_eq_true]
  intro c hc
  rw [inName_iff]
  intro hmark
  exact List.any_eq_false.1 hnone c hmark (Style.mem_rename hc)

/-- An identifier is not empty where a fragment has a letter or digit of ASCII. -/
theorem rename_ne_empty {fragments : List String} {c : Char}
    (hc : c ∈ (fragments.map String.toList).flatten) (h : c.isAlphanum = true) :
    style.rename fragments ≠ "" := by
  intro hempty
  have hne : (style.rename fragments).toList ≠ [] := Style.rename_ne_nil hc h
  rw [hempty] at hne
  exact hne rfl

theorem setHandle_ne_empty : setHandle style ≠ "" :=
  rename_ne_empty (c := 'A') (by simp) (by decide)

theorem handPath_ne_empty (hand : Hand) : handPath style hand ≠ "" := by
  cases hand with
  | left => exact rename_ne_empty (c := 'L') (by simp [Hand.label]) (by decide)
  | right => exact rename_ne_empty (c := 'R') (by simp [Hand.label]) (by decide)

theorem bindingTable_ne_empty (profile : String) : bindingTable style profile ≠ "" :=
  rename_ne_empty (c := 'B') (by simp) (by decide)

theorem handlesStruct_ne_empty (set : String) : handlesStruct style set ≠ "" :=
  rename_ne_empty (c := 'A') (by simp) (by decide)

theorem statesStruct_ne_empty (set : String) : statesStruct style set ≠ "" :=
  rename_ne_empty (c := 'A') (by simp) (by decide)

theorem bindingsStruct_ne_empty (set : String) : bindingsStruct style set ≠ "" :=
  rename_ne_empty (c := 'B') (by simp) (by decide)

/-! ## Calls -/

/-- Operands with a name in front. -/
theorem plainItems_cons {first : String} {others : List Operand} (h : IsName first)
    (hne : first ≠ "") (hothers : ∀ operand ∈ others, operand.Plain) :
    PlainItems (.word first :: others) where
  each := List.forall_mem_cons.2 ⟨.inl h, hothers⟩
  first := by simpa using hne

/-- A call whose outcome is kept starts with `result`. -/
theorem plain_keepResult {function : String} {arguments : List Operand}
    (hfunction : IsName function) (harguments : PlainItems arguments) :
    (keepResult function arguments).Plain := by
  have hresult : IsName "result" := by decide
  have hstarts : Starts "result" := by decide
  exact ⟨.inl hresult, hstarts, by decide, hfunction, harguments⟩

theorem plain_startResult : startResult.Plain := by
  have htype : LeadingType "XrResult" := by decide
  have hname : IsName "result" := by decide
  have hvalue : IsName "XR_SUCCESS" := by decide
  have hline : IsName "XrResult" ∧ "XrResult" ≠ "return" := by decide
  exact ⟨⟨htype, hname, .inl hvalue⟩, hline⟩

theorem plain_returnResult : returnResult.Plain := by
  have hname : IsName "result" := by decide
  exact Or.inl hname

/-- The path to find is in a literal, so any text will do. -/
theorem plain_resolvePath (path : String) {target : String} (h : IsName target) :
    (resolvePath path target).Plain := by
  apply plain_keepResult (by decide)
  apply plainItems_cons (by decide) (by decide)
  simp [Operand.Plain, h]

/-- A variable whose members are used, and with which a line can start. -/
def IsVariable (name : String) : Prop :=
  (IsName name ∧ startsWithDigit name.toList = false) ∧ Starts name

instance (name : String) : Decidable (IsVariable name) := inferInstanceAs (Decidable (_ ∧ _))

theorem plain_memberOf {object member : String} (hobject : IsVariable object)
    (hmember : IsName member) : (memberOf object member).Plain := ⟨hobject.1, hmember⟩

/-- A text is copied from a literal, so any will do. -/
theorem plain_copyText {object member : String} (hobject : IsVariable object)
    (hmember : IsName member) (text : String) : (copyText object member text).Plain := by
  have hfunction : IsName "strcpy_s" ∧ "strcpy_s" ≠ "" := by decide
  refine ⟨hfunction.1, hfunction.2, ?_, by simp [memberOf]⟩
  have htext : (Operand.literal text).Plain := trivial
  exact List.forall_mem_cons.2
    ⟨plain_memberOf hobject hmember, List.forall_mem_singleton.2 htext⟩

theorem plain_setMember {object member : String} {value : Operand} (hobject : IsVariable object)
    (hmember : IsName member) (hvalue : value.Plain) : (setMember object member value).Plain :=
  ⟨plain_memberOf hobject hmember, (hobject.2.append _).append _, by simp [memberOf], hvalue⟩

/-- A handle is a member of the parameter that it is reached through. -/
theorem plain_handle (fragments : List String) : (handle (style.rename fragments)).Plain :=
  plain_memberOf (by decide) (isName_rename fragments)

theorem plain_tagged {type name tag : String} (htype : LeadingType type) (hname : IsName name)
    (htag : IsName tag) : (Declaration.tagged type name tag).Plain := ⟨htype, hname, htag⟩

theorem plain_declare {declaration : Declaration} (h : declaration.Plain)
    (htype : IsName declaration.type ∧ declaration.type ≠ "return") :
    (Statement.declare declaration).Plain := ⟨h, htype⟩

/-- The test for success has `result` as its only argument. -/
theorem plain_succeeded : Guard.Plain (.when .succeeded) := by
  intro operand hoperand
  cases hoperand

instance (parameter : Parameter) : Decidable parameter.Plain :=
  inferInstanceAs (Decidable (LeadingType parameter.type ∧ IsName parameter.name))

theorem plain_instanceParameter : instanceParameter.Plain := by decide

theorem plain_sessionParameter : sessionParameter.Plain := by decide

theorem plain_handlesParameter (set : String) :
    (handlesParameter (handlesStruct style set)).Plain := by
  have hstruct : IsName (handlesStruct style set) := isName_rename _
  have hstarts := hstruct.starts (handlesStruct_ne_empty set)
  have hname : IsName "actionSet" := by decide
  exact ⟨⟨hstruct.isType.append (by decide), hstarts.append _⟩, hname⟩

/-- A method that gives a result back and tests for nothing but success is plain where its
parameters and its statements are. -/
theorem plain_fallible {method : Method} (hresult : method.result = some "XrResult")
    (hname : IsName method.name) (hparameters : ∀ parameter ∈ method.parameters, parameter.Plain)
    (hguards : ∀ guard ∈ method.guards, guard = .when .succeeded)
    (hstatements : ∀ statement ∈ method.statements, statement.Plain) : method.Plain := by
  have htype : Starts "XrResult" ∧ IsType "XrResult" := by decide
  refine ⟨?_, ?_, hname, hparameters, ?_, hstatements⟩
  · rw [hresult]
    exact htype.1
  · rw [hresult]
    rintro type ⟨⟩
    exact htype.2
  · intro guard hguard
    rw [hguards guard hguard]
    exact plain_succeeded

/-! ## The constants of OpenXR -/

/-- The constants for the kinds of actions are names. -/
theorem isName_constant (type : ActionType) : IsName type.constant := by
  cases type <;> decide

/-- So are the type, the mark and the getter of a state. -/
theorem isName_stateAccess {type : ActionType} {access : StateAccess}
    (h : type.stateAccess? = some access) :
    (IsName access.type ∧ access.type ≠ "") ∧ IsName access.tag ∧ IsName access.getter := by
  have hall : ∀ found ∈ type.stateAccess?,
      (IsName found.type ∧ found.type ≠ "") ∧ IsName found.tag ∧ IsName found.getter := by
    cases type <;> decide
  exact hall access h

/-! ## The struct of the handles -/

theorem plain_destructor (set : ActionSet) : (destructor style set).Plain := by
  -- it has no result, so a line starts with its name
  have hname : IsName ("~" ++ handlesStruct style set.name) :=
    IsName.append (by decide) (isName_rename _)
  have hhandle : IsName (setHandle style) := isName_rename _
  refine ⟨Starts.append (by decide) _, by simp [destructor], hname, by simp [destructor], ?_, ?_⟩
  · have hnull : IsName "XR_NULL_HANDLE" := by decide
    simp [destructor, Method.guards, Code.guards, Guard.Plain, Guard.operands,
      Condition.operands, Operand.Plain, hhandle, hnull]
  · have hfunction : IsName "xrDestroyActionSet" := by decide
    have harguments := plainItems_word hhandle setHandle_ne_empty
    simp [destructor, Method.statements, Code.statements, Statement.Plain, hfunction, harguments]

/-- An action is created by plain code, whatever it is named. -/
theorem plain_createAction (action : ActionPlan) :
    ∀ statement ∈ createAction style action, statement.Plain := by
  have hinfo : IsVariable "actionCreateInfo" := by decide
  intro statement h
  simp only [createAction, List.mem_append, List.mem_ite_nil_left, List.mem_cons,
    List.not_mem_nil, or_false] at h
  rcases h with ((⟨-, rfl⟩ | rfl | rfl | rfl | rfl) | ⟨-, rfl | rfl⟩) | rfl
  · have htype : IsType "XrPath" := by decide
    have hname : IsName "subactionPaths" := by decide
    have hpath : ∀ hand, IsName (handPath style hand) := fun hand => isName_rename _
    have hline : IsName "XrPath" ∧ "XrPath" ≠ "return" := by decide
    refine plain_declare ⟨htype, hname, ?_, ?_⟩ hline
    · exact List.forall_mem_map.2 fun hand _ => .inl (hpath hand)
    · cases action.hands with
      | nil => simp
      | cons hand others => simpa using handPath_ne_empty hand
  · exact plain_declare (plain_tagged (by decide) (by decide) (by decide)) (by decide)
  · exact plain_setMember hinfo (by decide) (.inl (isName_constant _))
  · -- the names of the action are literals, which may have any text
    exact plain_copyText hinfo (by decide) _
  · exact plain_copyText hinfo (by decide) _
  · exact plain_setMember hinfo (by decide) (.inl (isName_nat _))
  · have hname : IsName "subactionPaths" := by decide
    exact plain_setMember hinfo (by decide) (.inl hname)
  · have haction : IsName (actionHandle style action.action.name) := isName_rename _
    apply plain_keepResult (by decide)
    apply plainItems_cons (isName_rename _) setHandle_ne_empty
    simp [Operand.Plain, haction, hinfo.1.1]

/-- So is the set. -/
theorem plain_createSet (set : ActionSet) :
    ∀ statement ∈ createSet style set, statement.Plain := by
  have hinfo : IsVariable "actionSetInfo" := by decide
  intro statement h
  simp only [createSet, List.mem_cons, List.not_mem_nil, or_false] at h
  rcases h with rfl | rfl | rfl | rfl | rfl
  · exact plain_declare (plain_tagged (by decide) (by decide) (by decide)) (by decide)
  · exact plain_copyText hinfo (by decide) _
  · exact plain_copyText hinfo (by decide) _
  · exact plain_setMember hinfo (by decide) (.inl (isName_int _))
  · have htype : LeadingType "XrResult" := by decide
    have hresult : IsName "result" := by decide
    have hfunction : IsName "xrCreateActionSet" := by decide
    have hset : IsName (setHandle style) := isName_rename _
    have hline : IsName "XrResult" ∧ "XrResult" ≠ "return" := by decide
    refine plain_declare ⟨htype, hresult, hfunction, ?_⟩ hline
    apply plainItems_cons (by decide) (by decide)
    simp [Operand.Plain, hinfo.1.1, hset]

/-- The method is put together from plain statements in blocks for success. -/
theorem plain_createHandles : (createHandles style plan).Plain := by
  have hname : IsName "Initialize" := by decide
  refine plain_fallible rfl hname ?_ createHandles_guards ?_
  · exact List.forall_mem_singleton.2 plain_instanceParameter
  · intro statement hstatement
    rcases mem_createHandles.1 hstatement with hset | ⟨hand, -, rfl⟩ | ⟨action, -, haction⟩ | rfl
    · exact plain_createSet plan.set statement hset
    · exact plain_resolvePath _ (isName_rename _)
    · exact plain_createAction action statement haction
    · exact plain_returnResult

/-- The space of a pose is created by plain code. -/
theorem plain_createSpace (action : Action) (subaction : Subaction) :
    (createSpace style action subaction).Plain := by
  have hinfo : IsVariable "actionSpaceInfo" := by decide
  refine plain_fallible rfl (isName_rename _) ?_ ?_ ?_
  · have hspace : (Parameter.mk "XrSpace*" "space").Plain := by decide
    exact List.forall_mem_cons.2 ⟨plain_sessionParameter, List.forall_mem_singleton.2 hspace⟩
  · simp [createSpace, Method.guards, Code.guards]
  · have hdeclare : (Statement.declare (.tagged "XrActionSpaceCreateInfo" "actionSpaceInfo"
        "XR_TYPE_ACTION_SPACE_CREATE_INFO")).Plain :=
      plain_declare (plain_tagged (by decide) (by decide) (by decide)) (by decide)
    have haction : (setMember "actionSpaceInfo" "action"
        (.word (actionHandle style action.name))).Plain :=
      plain_setMember hinfo (by decide) (.inl (isName_rename _))
    have horientation : (Statement.assign
        (.field (.field (memberOf "actionSpaceInfo" "poseInActionSpace") "orientation") "w")
        (.operand (.word "1.0f"))).Plain := by
      have hnames : IsName "poseInActionSpace" ∧ IsName "orientation" ∧ IsName "w" := by decide
      have hvalue : IsNumeral "1.0f" := by decide
      have hobject : (memberOf "actionSpaceInfo" "poseInActionSpace").IsObject :=
        ⟨hinfo.1, hnames.1⟩
      exact ⟨⟨⟨hobject, hnames.2.1⟩, hnames.2.2⟩, by decide, by simp, .inr hvalue⟩
    have hcreate : (Statement.returns (.call "xrCreateActionSpace"
        [.word "session", .address "actionSpaceInfo", .word "space"])).Plain := by
      have hfunction : IsName "xrCreateActionSpace" := by decide
      have hspace : IsName "space" := by decide
      refine ⟨hfunction, plainItems_cons (by decide) (by decide) ?_⟩
      simp [Operand.Plain, hinfo.1.1, hspace]
    intro statement hstatement
    -- only a hand sets a path
    cases subaction with
    | whole =>
      simp only [createSpace, Method.statements, Code.statements, List.flatMap_map,
        List.flatMap_singleton', List.append_nil, List.mem_append, List.mem_cons,
        List.not_mem_nil, or_false] at hstatement
      rcases hstatement with (rfl | rfl | rfl) | rfl
      · exact hdeclare
      · exact haction
      · exact horientation
      · exact hcreate
    | hand hand =>
      simp only [createSpace, Method.statements, Code.statements, List.flatMap_map,
        List.flatMap_singleton', List.mem_append, List.mem_cons, List.not_mem_nil,
        or_false] at hstatement
      rcases hstatement with ((rfl | rfl | rfl) | rfl) | rfl
      · exact hdeclare
      · exact haction
      · exact horientation
      · exact plain_setMember hinfo (by decide) (.inl (isName_rename _))
      · exact hcreate

/-- The struct that owns a set is plain. -/
theorem plain_handles : (handles style plan).Plain := by
  refine ⟨⟨isName_rename _, handlesStruct_ne_empty _⟩, ?_, ?_, ?_⟩
  · intro declaration hdeclaration
    rcases mem_fields_handles.1 hdeclaration with rfl | ⟨action, -, rfl⟩ | ⟨hand, -, rfl⟩
    · exact plain_tagged (by decide) (isName_rename _) (by decide)
    · exact plain_tagged (by decide) (isName_rename _) (by decide)
    · exact plain_tagged (by decide) (isName_rename _) (by decide)
  · intro method hmethod
    rcases mem_methods_handles.1 hmethod with rfl | rfl | ⟨_, -, -, subaction, -, rfl⟩
    · exact plain_destructor plan.set
    · exact plain_createHandles
    · exact plain_createSpace _ subaction
  -- the struct has no records
  · intro name fields hrecord
    simp [handles, createSpaces] at hrecord

/-! ## The struct of the states -/

/-- A state is fetched by plain code. -/
theorem plain_fetchState (action : Action) {type : ActionType} {access : StateAccess}
    (haccess : type.stateAccess? = some access) (subaction : Subaction) :
    ∀ statement ∈ fetchState style action access subaction, statement.Plain := by
  have hinfo : IsVariable "actionStateGetInfo" := by decide
  have hstate : IsName (stateField style action.name subaction) := isName_rename _
  intro statement h
  simp only [fetchState, List.mem_cons, List.not_mem_nil, or_false] at h
  rcases h with rfl | rfl | rfl
  · exact plain_setMember hinfo (by decide) (plain_handle _)
  · apply plain_setMember hinfo (by decide)
    -- the path is a constant for the whole action and a handle for a hand
    cases subaction with
    | whole =>
      have hnull : IsName "XR_NULL_PATH" := by decide
      exact .inl hnull
    | hand hand => exact plain_handle _
  · apply plain_keepResult (isName_stateAccess haccess).2.2
    apply plainItems_cons (by decide) (by decide)
    simp [Operand.Plain, hinfo.1.1, hstate]

theorem plain_updateStates : (updateStates style plan).Plain := by
  have hname : IsName "UpdateActionStates" := by decide
  refine plain_fallible rfl hname ?_ updateStates_guards ?_
  · exact List.forall_mem_cons.2 ⟨plain_sessionParameter,
      List.forall_mem_singleton.2 (plain_handlesParameter plan.set.name)⟩
  · intro statement hstatement
    rcases mem_updateStates.1 hstatement with
      (rfl | rfl) | ⟨input, hinput, subaction, -, hfetch⟩ | rfl
    · exact plain_declare (plain_tagged (by decide) (by decide) (by decide)) (by decide)
    · exact plain_startResult
    · exact plain_fetchState _ (mem_accessedInputs.1 hinput).2 subaction statement hfetch
    · exact plain_returnResult

/-- What is returned for a hand are addresses of fields, or `nullptr`. -/
theorem plain_handStatePointers (hand : Hand) :
    ∀ operand ∈ handStatePointers style plan hand, operand.Plain := by
  intro operand hoperand
  obtain ⟨input, -, rfl⟩ := List.mem_map.1 hoperand
  split
  · exact isName_rename _
  · have hnull : IsName "nullptr" := by decide
    exact .inl hnull

/-- The branches for hands compare and return plain operands. -/
theorem plain_getHandStates : (getHandStates style plan).Plain := by
  have hstarts : Starts "SubactionStates" := by decide
  have hresult : IsType "SubactionStates" := by decide
  have hname : IsName "GetSubactionStates" := by decide
  have hpath : IsName "subactionPath" := by decide
  refine ⟨hstarts, by simpa [getHandStates] using hresult, hname, ?_, ?_, ?_⟩
  · have hparameter : (Parameter.mk "XrPath" "subactionPath").Plain := by decide
    simpa [getHandStates] using ⟨plain_handlesParameter plan.set.name, hparameter⟩
  · intro guard hguard operand hoperand
    rcases getHandStates_guard hguard hoperand with rfl | ⟨hand, -, rfl⟩
    · exact .inl hpath
    · exact plain_handle _
  · intro statement hstatement
    rcases getHandStates_statement hstatement with rfl | ⟨hand, -, rfl⟩
    -- the default carries a remark to the end of the line
    · have hremark : Plain "Unknown subaction path." := by decide
      have hends : Ends "Unknown subaction path." := by decide
      exact ⟨hremark, hends⟩
    · exact plainItems_cons hpath (by decide) (plain_handStatePointers hand)

/-- The struct inside has plain fields. Its pointers start with `const`. -/
theorem plain_handStates {name : String} {fields : List Declaration}
    (h : .record name fields = handStates style plan) :
    (IsName name ∧ name ≠ "") ∧ ∀ declaration ∈ fields, declaration.Plain := by
  obtain ⟨rfl, rfl⟩ := Member.record.inj h
  refine ⟨by decide, List.forall_mem_cons.2 ⟨?_, ?_⟩⟩
  · have htype : LeadingType "XrPath" := by decide
    have hnull : IsName "XR_NULL_PATH" := by decide
    exact ⟨htype, isName_rename _, .inl hnull⟩
  · intro declaration hdeclaration
    obtain ⟨⟨input, access⟩, hinput, rfl⟩ := List.mem_map.1 hdeclaration
    obtain ⟨⟨htype, -⟩, -⟩ := isName_stateAccess (mem_accessedInputs.1 hinput).2
    -- a pointer to a constant state
    have hconst : LeadingType ("const " ++ access.type ++ "*") :=
      ⟨(IsType.append (by decide) htype.isType).append (by decide),
        (Starts.append (by decide) _).append _⟩
    have hnull : IsName "nullptr" := by decide
    exact ⟨hconst, isName_rename _, .inl hnull⟩

/-- The struct that holds the states is plain. -/
theorem plain_states : (states style plan).Plain := by
  refine ⟨⟨isName_rename _, statesStruct_ne_empty _⟩, ?_, ?_, ?_⟩
  · intro declaration hdeclaration
    rw [mem_stateFields] at hdeclaration
    obtain ⟨⟨input, access⟩, hinput, hfield⟩ := List.mem_flatMap.1 hdeclaration
    obtain ⟨subaction, -, rfl⟩ := List.mem_map.1 hfield
    obtain ⟨⟨htype, hne⟩, htag, -⟩ := isName_stateAccess (mem_accessedInputs.1 hinput).2
    exact plain_tagged ⟨htype.isType, htype.starts hne⟩ (isName_rename _) htag
  · intro method hmethod
    rcases mem_methods_states hmethod with rfl | rfl
    · exact plain_updateStates
    · exact plain_getHandStates
  · intro name fields hrecord
    simp only [states, List.mem_append, List.mem_ite_nil_right, List.mem_ite_nil_left,
      List.mem_cons, List.mem_map, List.not_mem_nil, reduceCtorEq, and_false, or_false,
      exists_false] at hrecord
    -- the states of one hand are the only struct inside of it
    exact plain_handStates hrecord.2

/-! ## The struct of the tables -/

/-- Paths are declared and found by plain code. -/
theorem plain_findPaths : ∀ statement ∈ findPaths style plan, statement.Plain := by
  intro statement h
  simp only [findPaths, List.mem_append, List.mem_cons, List.mem_map] at h
  rcases h with (rfl | ⟨suggested, -, rfl⟩) | ⟨path, -, rfl⟩ | ⟨path, -, rfl⟩
  · exact plain_startResult
  · exact plain_resolvePath _ (isName_rename _)
  · have htype : LeadingType "XrPath" := by decide
    have hnull : IsName "XR_NULL_PATH" := by decide
    have hline : IsName "XrPath" ∧ "XrPath" ≠ "return" := by decide
    exact plain_declare ⟨htype, isName_rename _, .inl hnull⟩ hline
  · exact plain_resolvePath _ (isName_rename _)

/-- The tables are filled by plain code. -/
theorem plain_createTables : (createTables style plan).Plain := by
  have hname : IsName "Initialize" := by decide
  refine plain_fallible rfl hname ?_ createTables_guards ?_
  · exact List.forall_mem_cons.2 ⟨plain_instanceParameter,
      List.forall_mem_singleton.2 (plain_handlesParameter plan.set.name)⟩
  · intro statement hstatement
    rw [createTables_statements] at hstatement
    rcases List.mem_append.1 hstatement with hfind | hfill
    · exact plain_findPaths statement hfind
    · rcases eq_of_mem_fillTables hfill with rfl | ⟨profile, -, pair, -, index, rfl⟩
      · exact plain_returnResult
      · -- an entry starts with the name of its table
        have htable : IsName (bindingTable style profile.profile) := isName_rename _
        have hentry := htable.starts (bindingTable_ne_empty _)
        have haction : (handle (actionHandle style pair.1)).Plain := plain_handle _
        have hpath : IsName (bindingPath style pair.2) := isName_rename _
        refine ⟨htable, ((hentry.append _).append _).append _, by simp, ?_,
          by simp [memberOf, handle]⟩
        exact List.forall_mem_cons.2 ⟨haction, List.forall_mem_singleton.2 (.inl hpath)⟩

/-- A table is submitted by plain code. -/
theorem plain_suggestTable (profile : ProfileBindings) :
    ∀ statement ∈ suggestTable style profile, statement.Plain := by
  have hinfo : IsVariable "interactionSuggestedBindings" := by decide
  intro statement h
  simp only [suggestTable, List.mem_cons, List.not_mem_nil, or_false] at h
  rcases h with rfl | rfl | rfl | rfl | rfl
  · exact plain_declare (plain_tagged (by decide) (by decide) (by decide)) (by decide)
  · exact plain_setMember hinfo (by decide) (.inl (isName_rename _))
  · exact plain_setMember hinfo (by decide) (.inl (isName_rename _))
  · exact plain_setMember hinfo (by decide) (.inl (isName_nat _))
  · apply plain_keepResult (by decide)
    apply plainItems_cons (by decide) (by decide)
    simp [Operand.Plain, hinfo.1.1]

theorem plain_suggestTables : (suggestTables style plan).Plain := by
  have hname : IsName "SuggestInteractionProfileBindings" := by decide
  refine plain_fallible rfl hname ?_ suggestTables_guards ?_
  · exact List.forall_mem_singleton.2 plain_instanceParameter
  · intro statement hstatement
    rcases mem_suggestTables.1 hstatement with rfl | ⟨profile, -, hsuggest⟩ | rfl
    · exact plain_startResult
    · exact plain_suggestTable profile statement hsuggest
    · exact plain_returnResult

/-- The struct that suggests bindings is plain. -/
theorem plain_tables : (tables style plan).Plain := by
  refine ⟨⟨isName_rename _, bindingsStruct_ne_empty _⟩, ?_, ?_, ?_⟩
  · intro declaration hdeclaration
    rcases mem_fields_tables.1 hdeclaration with ⟨profile, -, rfl⟩ | ⟨profile, -, rfl⟩
    · have htype : LeadingType "XrPath" := by decide
      exact ⟨htype, isName_rename _⟩
    · have htype : LeadingType "XrActionSuggestedBinding" := by decide
      exact ⟨htype, isName_rename _⟩
  · intro method hmethod
    rcases mem_methods_tables.1 hmethod with rfl | rfl
    · exact plain_createTables
    · exact plain_suggestTables
  · intro name fields hrecord
    simp [tables] at hrecord

/-- The structs of an action set are plain code. -/
theorem SetStructs.plain {struct : Struct}
    (h : struct ∈ (SetStructs.ofPlan style plan).toList) : struct.Plain := by
  simp only [SetStructs.toList, SetStructs.ofPlan, List.mem_cons, List.not_mem_nil,
    or_false] at h
  rcases h with rfl | rfl | rfl
  · exact plain_handles
  · exact plain_states
  · exact plain_tables

end XrManifest.Header
