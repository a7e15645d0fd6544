import XrManifest.Proofs.Header.Parsing

/-!
# What a header refers to

Every name that the code of a header refers to is declared where it has to be. The main
statement is `Manifest.header_refersToDeclared`.
-/

namespace XrManifest
namespace Header

open XrManifest.Cpp XrManifest.Naming

/-- The struct has a path with this name, and its `Initialize` finds the path before it
creates an action. -/
def OwnsPath (handles : Struct) (name : String) : Prop :=
  (∃ tag, .tagged "XrPath" name tag ∈ handles.fields) ∧
  ∃ method before path after, handles.method? "Initialize" = some method ∧
    method.statements = before ++ resolvePath path name :: after ∧
    ∀ statement ∈ before, ∀ arguments, statement.call? ≠ some ("xrCreateAction", arguments)

/-- A local variable with this name is declared as a path, and the path is found later. -/
def DeclaresPath (statements : List Statement) (name : String) : Prop :=
  ∃ before value between path after,
    statements = before ++ .declare (.preset "XrPath" name value) ::
      (between ++ resolvePath path name :: after)

/-- The code of an action set refers to what it declares. -/
structure SetStructs.RefersToDeclared (structs : SetStructs) : Prop where
  /-- What is used of the struct of the handles is one of its fields. -/
  handles : ∀ struct ∈ [structs.states, structs.tables], ∀ name ∈ struct.uses "actionSet",
    name ∈ structs.handles.fields.map Declaration.name
  /-- Every state that is fetched is stored in a field. -/
  fetches : ∃ method, structs.states.method? "UpdateActionStates" = some method ∧
    ∀ statement ∈ method.statements, ∀ function arguments,
      statement.call? = some (function, arguments) →
        ∃ name, arguments.getLast? = some (.address name) ∧
          name ∈ structs.states.fields.map Declaration.name
  /-- Every state that is given for one hand is a field. -/
  pointers : ∀ method, structs.states.method? "GetSubactionStates" = some method →
    ∀ items, .returns (.braces items) ∈ method.statements → ∀ name, .address name ∈ items →
      name ∈ structs.states.fields.map Declaration.name
  /-- The paths for which an action is created are owned. -/
  subactionPaths : ∀ method ∈ structs.handles.methods, ∀ type elements,
    .declare (.listed type "subactionPaths" elements) ∈ method.statements →
      ∀ element ∈ elements, ∃ name, element = .word name ∧ OwnsPath structs.handles name
  /-- The path for which a space is created is owned. -/
  spacePaths : ∀ method ∈ structs.handles.methods, ∀ object value,
    .assign (.field object "subactionPath") value ∈ method.statements →
      ∃ name, value = .operand (.word name) ∧ OwnsPath structs.handles name
  /-- The paths in the tables are declared and found in front of the entry. -/
  bindingPaths : ∃ method, structs.tables.method? "Initialize" = some method ∧
    ∀ before table index items after,
      method.statements = before ++ .assign (.entry table index) (.braces items) :: after →
        ∀ name, .word name ∈ items → DeclaresPath before name

section
variable {style : Style} {plan : Plan}

/-! ## Paths of hands -/

/-- The paths of the hands in use are owned. -/
theorem ownsPath_hand {hand : Hand} (h : hand ∈ plan.hands) :
    OwnsPath (handles style plan) (handPath style hand) := by
  constructor
  · refine ⟨"XR_NULL_PATH", Struct.mem_fields.2 ?_⟩
    refine List.mem_append_right _ (List.mem_map.2 ⟨hand, h, rfl⟩)
  · rcases List.append_of_mem h with ⟨before, after, hhands⟩
    refine ⟨_, createSet style plan.set ++
      before.map (fun hand => resolvePath hand.userPath (handPath style hand)), hand.userPath,
      after.map (fun hand => resolvePath hand.userPath (handPath style hand)) ++
        (plan.actions.flatMap (createAction style) ++ [returnResult]), method?_handles, ?_, ?_⟩
    · rw [createHandles_statements, hhands]
      simp
    · -- only the action set and the other paths come first
      intro statement hstatement arguments
      rcases List.mem_append.1 hstatement with hset | hpath
      · simp only [createSet, List.mem_cons, List.not_mem_nil, or_false] at hset
        rcases hset with rfl | rfl | rfl | rfl | rfl <;>
          simp [copyText, setMember, Statement.call?]
      · rcases List.mem_map.1 hpath with ⟨_, -, rfl⟩
        simp [resolvePath, keepResult, Statement.call?]

/-- The paths for which actions are created are those of hands in use. -/
theorem subactionPaths_owned (hderived : plan.Derived) {method : Method}
    (hmethod : method ∈ (handles style plan).methods) {type : String} {elements : List Operand}
    (h : .declare (.listed type "subactionPaths" elements) ∈ method.statements) :
    ∀ element ∈ elements,
      ∃ name, element = .word name ∧ OwnsPath (handles style plan) name := by
  rcases mem_methods_handles.1 hmethod with rfl | rfl | ⟨action, -, -, subaction, -, rfl⟩
  · simp [destructor, Method.statements, Code.statements] at h
  · rcases mem_createHandles.1 h with hset | ⟨_, -, hpath⟩ | ⟨action, haction, hlisted⟩ | hreturn
    · simp [createSet, copyText, setMember] at hset
    · simp [resolvePath, keepResult] at hpath
    · -- only the creation of an action lists paths
      rcases createAction_listed hlisted with rfl
      intro element helement
      rcases List.mem_map.1 helement with ⟨hand, hhand, rfl⟩
      exact ⟨_, rfl, ownsPath_hand (hderived.hands action haction hand hhand)⟩
    · simp [returnResult] at hreturn
  · cases subaction <;> simp [createSpace, Method.statements, Code.statements, setMember] at h

/-- So are the paths for which spaces are created. -/
theorem spacePaths_owned (hderived : plan.Derived) {method : Method}
    (hmethod : method ∈ (handles style plan).methods) {object : Operand} {value : Value}
    (h : .assign (.field object "subactionPath") value ∈ method.statements) :
    ∃ name, value = .operand (.word name) ∧ OwnsPath (handles style plan) name := by
  rcases mem_methods_handles.1 hmethod with
    rfl | rfl | ⟨action, haction, -, subaction, hsubaction, rfl⟩
  · simp [destructor, Method.statements, Code.statements] at h
  · rcases mem_createHandles.1 h with hset | ⟨_, -, hpath⟩ | ⟨action, -, hassign⟩ | hreturn
    · simp [createSet, copyText, setMember, memberOf] at hset
    · simp [resolvePath, keepResult] at hpath
    · unfold createAction at hassign
      cases hempty : action.hands.isEmpty <;>
        simp_all [setMember, copyText, keepResult, memberOf]
    · simp [returnResult] at hreturn
  · cases subaction with
    | whole => simp [createSpace, Method.statements, Code.statements, setMember, memberOf] at h
    | hand hand =>
      have hassign : object = .word "actionSpaceInfo" ∧
          value = .operand (.word (handPath style hand)) := by
        simpa [createSpace, Method.statements, Code.statements, setMember, memberOf] using h
      -- the hand of a subaction is one of the plan, which owns its path
      have hmem := hderived.hands action haction hand
        (hderived.subactions action haction hand hsubaction)
      exact ⟨_, hassign.2, ownsPath_hand hmem⟩

/-! ## States -/

/-- Every call of a fetch stores its result in the field of the state. -/
theorem fetches_stored {statement : Statement} {function : String} {arguments : List Operand}
    (hstatement : statement ∈ (updateStates style plan).statements)
    (hcall : statement.call? = some (function, arguments)) :
    ∃ name, arguments.getLast? = some (.address name) ∧
      name ∈ (states style plan).fields.map Declaration.name := by
  rcases mem_updateStates.1 hstatement with
    (rfl | rfl) | ⟨⟨input, access⟩, hinput, subaction, hsubaction, hmem⟩ | rfl
  · cases hcall
  · cases hcall
  · refine ⟨stateField style input.action.name subaction, ?_, stateField_mem hinput hsubaction⟩
    simp only [fetchState, List.mem_cons, List.not_mem_nil, or_false] at hmem
    -- the third statement of a fetch is its call
    rcases hmem with rfl | rfl | rfl
    · cases hcall
    · cases hcall
    · cases hcall
      rfl
  · cases hcall

/-- The states of one hand are fields. -/
theorem pointers_declared {method : Method} {items : List Operand} {name : String}
    (hmethod : (states style plan).method? "GetSubactionStates" = some method)
    (hitems : .returns (.braces items) ∈ method.statements) (hname : .address name ∈ items) :
    name ∈ (states style plan).fields.map Declaration.name := by
  have hname' : method.name = "GetSubactionStates" := by simpa using List.find?_some hmethod
  rcases mem_methods_states (List.mem_of_find?_eq_some hmethod) with rfl | rfl
  · simp [updateStates] at hname'
  · rcases getHandStates_statement hitems with hdefault | ⟨hand, -, hreturns⟩
    · cases hdefault
    rcases Value.braces.inj (Statement.returns.inj hreturns) with rfl
    -- the first item is the path, which is no address
    have hpointer : .address name ∈ handStatePointers style plan hand := by simpa using hname
    rcases address_mem_handStatePointers hpointer with ⟨input, access, hinput, hsubaction, rfl⟩
    exact stateField_mem hinput hsubaction

/-! ## Paths of bindings -/

/-- The paths in an entry of a table are declared and found in front of it. -/
theorem bindingPaths_declared (hderived : plan.Derived) {before after : List Statement}
    {table : String} {index : Nat} {items : List Operand}
    (h : (createTables style plan).statements =
      before ++ .assign (.entry table index) (.braces items) :: after)
    {name : String} (hname : .word name ∈ items) : DeclaresPath before name := by
  rcases before_entry h with ⟨more, rfl, hback⟩
  have hentry : .assign (.entry table index) (.braces items) ∈
      plan.set.profiles.flatMap (fillTable style) ++ [returnResult] := by simp [hback]
  rcases eq_of_mem_fillTables hentry with hreturn | ⟨profile, hprofile, pair, hpair, _, hsame⟩
  · cases hreturn
  rcases Value.braces.inj (Statement.assign.inj hsame).2 with rfl
  -- the handle is no variable, so the path is the only one
  have hlocal : name = bindingPath style pair.2 := by simpa [handle, memberOf] using hname
  have hpath : pair.2 ∈ plan.paths := by
    rw [hderived.paths, ActionSet.mem_distinctPaths]
    exact ActionSet.mem_allPaths_of_pair hprofile hpair
  rcases List.append_of_mem hpath with ⟨earlier, later, hpaths⟩
  refine ⟨(startResult :: plan.set.profiles.map fun suggested =>
      resolvePath suggested.profile (profilePath style suggested.profile)) ++
      earlier.map (declarePath style),
    .operand (.word "XR_NULL_PATH"),
    later.map (declarePath style) ++ earlier.map (findPath style), pair.2,
    later.map (findPath style) ++ more, ?_⟩
  rw [hlocal, findPaths, hpaths]
  simp [declarePath, findPath]

/-! ## Handles -/

/-- What a method uses when its branches depend on nothing but success. -/
theorem uses_of_succeeded {method : Method}
    (hguards : ∀ guard ∈ method.guards, guard = .when .succeeded) {object name : String}
    (h : name ∈ method.operands.flatMap (Operand.uses object)) :
    ∃ statement ∈ method.statements,
      name ∈ statement.operands.flatMap (Operand.uses object) := by
  rcases List.mem_flatMap.1 h with ⟨operand, hoperand, hname⟩
  rcases Method.mem_operands.1 hoperand with
    ⟨guard, hguard, hmem⟩ | ⟨statement, hstatement, hmem⟩
  · rw [hguards guard hguard] at hmem
    cases hmem
  · exact ⟨statement, hstatement, List.mem_flatMap.2 ⟨operand, hmem, hname⟩⟩

/-- A fetch uses the handle of its action, and the path of its hand. -/
theorem uses_fetchState {action : Action} {access : StateAccess} {subaction : Subaction}
    {statement : Statement} (hstatement : statement ∈ fetchState style action access subaction)
    {name : String} (h : name ∈ statement.operands.flatMap (Operand.uses "actionSet")) :
    name = actionHandle style action.name ∨
      ∃ hand, subaction = .hand hand ∧ name = handPath style hand := by
  cases subaction <;>
    simp only [fetchState, List.mem_cons, List.not_mem_nil, or_false] at hstatement <;>
    rcases hstatement with rfl | rfl | rfl <;>
    simp_all [setMember, keepResult, memberOf, handle, Statement.operands, Value.operands,
      Operand.uses]

theorem uses_updateStates (hderived : plan.Derived) {name : String}
    (h : name ∈ (updateStates style plan).operands.flatMap (Operand.uses "actionSet")) :
    (∃ action ∈ plan.actions, name = actionHandle style action.action.name) ∨
      ∃ hand ∈ plan.hands, name = handPath style hand := by
  rcases uses_of_succeeded updateStates_guards h with ⟨statement, hstatement, hname⟩
  rcases mem_updateStates.1 hstatement with
    (rfl | rfl) | ⟨⟨input, access⟩, hinput, subaction, hsubaction, hmem⟩ | rfl
  · cases hname
  · cases hname
  · have haction := (mem_accessedInputs.1 hinput).1
    -- a fetch uses the handle of its action and the path of its hand
    rcases uses_fetchState hmem hname with rfl | ⟨hand, rfl, rfl⟩
    · exact .inl ⟨input, haction, rfl⟩
    · have hhand := hderived.subactions input haction hand hsubaction
      exact .inr ⟨hand, hderived.hands input haction hand hhand, rfl⟩
  · cases hname

/-- The branches for hands use their paths. -/
theorem uses_getHandStates {name : String}
    (h : name ∈ (getHandStates style plan).operands.flatMap (Operand.uses "actionSet")) :
    ∃ hand ∈ plan.hands, name = handPath style hand := by
  rcases List.mem_flatMap.1 h with ⟨operand, hoperand, hname⟩
  rcases Method.mem_operands.1 hoperand with
    ⟨guard, hguard, hmem⟩ | ⟨statement, hstatement, hmem⟩
  -- a branch compares the path that is asked for with that of a hand
  · rcases getHandStates_guard hguard hmem with rfl | ⟨hand, hhand, rfl⟩
    · cases hname
    · exact ⟨hand, hhand, by simpa [handle, memberOf, Operand.uses] using hname⟩
  · rcases getHandStates_statement hstatement with rfl | ⟨hand, -, rfl⟩
    · cases hmem
    · rcases List.mem_cons.1 hmem with rfl | hpointer
      · cases hname
      · rcases List.mem_map.1 hpointer with ⟨input, -, rfl⟩
        split at hname <;> cases hname

/-- The states use handles of actions and paths of hands in use. -/
theorem uses_states (hderived : plan.Derived) {name : String}
    (h : name ∈ (states style plan).uses "actionSet") :
    (∃ action ∈ plan.actions, name = actionHandle style action.action.name) ∨
      ∃ hand ∈ plan.hands, name = handPath style hand := by
  rcases List.mem_flatMap.1 h with ⟨member, hmember, hname⟩
  simp only [states, List.append_assoc, List.cons_append, List.nil_append, List.isEmpty_iff,
    List.mem_append, List.mem_ite_nil_right, List.mem_cons, List.not_mem_nil, or_false,
    List.mem_ite_nil_left, List.mem_map] at hmember
  rcases hmember with ⟨-, rfl | rfl⟩ | rfl | ⟨-, rfl | rfl⟩ | ⟨-, rfl⟩ | ⟨field, hfield, rfl⟩
  -- the record of a hand is declared without the set
  · simp [handStates, Member.operands, Declaration.operands, Value.operands, Operand.uses] at hname
  · cases hname
  · exact uses_updateStates hderived hname
  · cases hname
  · exact .inr (uses_getHandStates hname)
  · cases hname
  · rcases List.mem_flatMap.1 hfield with ⟨input, -, hmem⟩
    rcases List.mem_map.1 hmem with ⟨subaction, -, rfl⟩
    cases hname

theorem uses_createTables {name : String}
    (h : name ∈ (createTables style plan).operands.flatMap (Operand.uses "actionSet")) :
    ∃ profile ∈ plan.set.profiles, ∃ pair ∈ profile.bindings.pairs,
      name = actionHandle style pair.1 := by
  rcases uses_of_succeeded createTables_guards h with ⟨statement, hstatement, hname⟩
  rw [createTables_statements] at hstatement
  rcases List.mem_append.1 hstatement with hfront | hback
  · rcases eq_of_mem_findPaths hfront with rfl | ⟨path, -, rfl⟩ | ⟨path, target, rfl⟩
    · cases hname
    · cases hname
    · simp [resolvePath, keepResult, Statement.operands, Value.operands, Operand.uses] at hname
  · rcases eq_of_mem_fillTables hback with rfl | ⟨profile, hprofile, pair, hpair, index, rfl⟩
    · cases hname
    · refine ⟨profile, hprofile, pair, hpair, ?_⟩
      simpa [Statement.operands, Value.operands, handle, memberOf, Operand.uses] using hname

/-- Suggesting the tables uses no handle. -/
theorem not_uses_suggestTables (name : String) :
    name ∉ (suggestTables style plan).operands.flatMap (Operand.uses "actionSet") := by
  intro h
  rcases uses_of_succeeded suggestTables_guards h with ⟨statement, hstatement, hname⟩
  rcases mem_suggestTables.1 hstatement with rfl | ⟨profile, -, hmem⟩ | rfl
  · cases hname
  · simp only [suggestTable, List.mem_cons, List.not_mem_nil, or_false] at hmem
    -- the submission speaks of variables of its own
    rcases hmem with rfl | rfl | rfl | rfl | rfl <;>
      simp [setMember, memberOf, keepResult, Statement.operands, Declaration.operands,
        Value.operands, Operand.uses] at hname
  · cases hname

/-- The tables use the handles of the actions that are bound. -/
theorem uses_tables {name : String} (h : name ∈ (tables style plan).uses "actionSet") :
    ∃ profile ∈ plan.set.profiles, ∃ pair ∈ profile.bindings.pairs,
      name = actionHandle style pair.1 := by
  rcases List.mem_flatMap.1 h with ⟨member, hmember, hname⟩
  simp only [tables, List.cons_append, List.nil_append, List.append_assoc, List.mem_cons,
    List.mem_append, List.mem_map] at hmember
  rcases hmember with rfl | rfl | rfl | rfl | ⟨profile, -, rfl⟩ | rfl | ⟨profile, -, rfl⟩
  · exact uses_createTables hname
  · cases hname
  · exact absurd hname (not_uses_suggestTables name)
  all_goals cases hname

/-- The actions have their handles as fields. -/
theorem actionHandle_mem {action : String} (h : action ∈ plan.set.actions.map Action.name) :
    actionHandle style action ∈ (handles style plan).fields.map Declaration.name := by
  rcases List.mem_map.1 h with ⟨declared, hdeclared, rfl⟩
  refine List.mem_map.2 ⟨.tagged "XrAction" (actionHandle style declared.name) "XR_NULL_HANDLE",
    Struct.mem_fields.2 ?_, rfl⟩
  simp only [handles, List.mem_append, List.mem_map]
  exact .inl (.inl (.inr ⟨declared, hdeclared, rfl⟩))

/-- The code from a plan refers to what it declares, when the bindings are for actions of
the set. -/
theorem refersToDeclared_ofPlan (hderived : plan.Derived)
    (hbound : ∀ suggested ∈ plan.set.profiles, ∀ action ∈ suggested.bindings.actions,
      action ∈ plan.set.actions.map Action.name) :
    (SetStructs.ofPlan style plan).RefersToDeclared where
  handles := by
    intro struct hstruct name hname
    -- the plan has the actions of the set
    have hactions : ∀ action ∈ plan.actions,
        action.action.name ∈ plan.set.actions.map Action.name := by
      intro action haction
      rw [← hderived.actions]
      exact List.mem_map.2 ⟨action.action, List.mem_map.2 ⟨action, haction, rfl⟩, rfl⟩
    rcases List.mem_cons.1 hstruct with rfl | hstruct
    · rcases uses_states hderived hname with ⟨action, haction, rfl⟩ | ⟨hand, hhand, rfl⟩
      · exact actionHandle_mem (hactions action haction)
      · rcases (ownsPath_hand hhand).1 with ⟨tag, htag⟩
        exact List.mem_map.2 ⟨_, htag, rfl⟩
    · rcases List.mem_singleton.1 hstruct with rfl
      rcases uses_tables hname with ⟨profile, hprofile, pair, hpair, rfl⟩
      exact actionHandle_mem (hbound profile hprofile _ (Bindings.mem_actions_of_pair hpair))
  fetches := ⟨_, method?_states, fun _ hstatement _ _ hcall => fetches_stored hstatement hcall⟩
  pointers := fun _ hmethod _ hitems _ hname => pointers_declared hmethod hitems hname
  subactionPaths := fun _ hmethod _ _ h => subactionPaths_owned hderived hmethod h
  spacePaths := fun _ hmethod _ _ h => spacePaths_owned hderived hmethod h
  bindingPaths := ⟨_, method?_tables, fun _ _ _ _ _ h _ hname =>
    bindingPaths_declared hderived h hname⟩

end
end Header

/-! ## Headers -/

open Header in
/-- When the bindings of each action set are for actions of the set, the three structs that
a header has for the set refer to what they declare. -/
theorem Manifest.header_refersToDeclared {style : Naming.Style} {manifest : Manifest}
    {text : String}
    (hbound : ∀ set ∈ manifest.actionSets, ∀ suggested ∈ set.profiles,
      ∀ action ∈ suggested.bindings.actions, action ∈ set.actions.map Action.name)
    (h : manifest.header style = .ok text) :
    ∃ header, Header.parse text = some header ∧
      List.Forall₂ (fun set structs =>
          structs.handles.name = handlesStruct style set.name ∧
          structs.states.name = statesStruct style set.name ∧
          structs.tables.name = bindingsStruct style set.name ∧ structs.RefersToDeclared)
        manifest.actionSets header.sets := by
  refine header_parse_derived (fun set hset plan hsame hderived => ?_) h
  subst hsame
  exact ⟨rfl, rfl, rfl, refersToDeclared_ofPlan hderived (hbound _ hset)⟩

open Header in
/-- A pose of both hands, bound in one profile. -/
theorem Manifest.header_refersToDeclared_pose :
    ∃ (manifest : Manifest) (text : String) (header : Header) (structs : SetStructs),
      manifest.actionSets.length = 1 ∧ manifest.header .pascal = .ok text ∧
      Header.parse text = some header ∧ header.sets = [structs] ∧ structs.RefersToDeclared := by
  let action : Action := ⟨"grip", "Grip", .pose, true⟩
  let suggested : ProfileBindings := ⟨"/interaction_profiles/any",
    ⟨[("grip", ["/user/hand/left/input/grip/pose", "/user/hand/right/input/grip/pose"])],
      by decide⟩⟩
  let set : ActionSet := ⟨"play", "Play", 0, [action], [suggested]⟩
  let plan : Plan := ⟨set, [⟨action, [.left, .right], [.hand .left, .hand .right]⟩],
    [.left, .right], set.distinctPaths⟩
  have hplan : Plan.ofActionSet set = .ok plan := by rfl
  rcases exists_header_singleton .pascal hplan with ⟨text, hheader⟩
  have hbound : ∀ s ∈ [set], ∀ p ∈ s.profiles, ∀ name ∈ p.bindings.actions,
      name ∈ s.actions.map Action.name := by decide
  rcases header_refersToDeclared hbound hheader with ⟨header, hparse, hsets⟩
  rcases forall₂_singleton_left_iff.1 hsets with ⟨structs, hstructs, hall⟩
  exact ⟨⟨[set]⟩, text, header, structs, rfl, hheader, hparse, hall, hstructs.2.2.2⟩

end XrManifest
