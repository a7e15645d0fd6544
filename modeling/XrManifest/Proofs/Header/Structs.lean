import XrManifest.Proofs.Cpp.Contents
import XrManifest.Proofs.Header.Generation

/-!
# The structs of an action set

The fields, the methods and the statements of the three structs that a header has for an
action set, from the plan of the set.
-/

namespace XrManifest.Header

open XrManifest.Cpp XrManifest.Naming

variable {style : Style} {plan : Plan}

/-! ## The struct of the handles -/

/-- The methods are the destructor, `Initialize` and those that create spaces. -/
theorem mem_methods_handles {method : Method} :
    method ∈ (handles style plan).methods ↔
      method = destructor style plan.set ∨ method = createHandles style plan ∨
        ∃ action ∈ plan.actions, action.action.type = .pose ∧
          ∃ subaction ∈ action.subactions, method = createSpace style action.action subaction := by
  rw [Struct.mem_methods]
  simp [handles, createSpaces]

/-- The fields are the set, its actions and the paths of the hands in use. -/
theorem mem_fields_handles {declaration : Declaration} :
    declaration ∈ (handles style plan).fields ↔
      declaration = .tagged "XrActionSet" (setHandle style) "XR_NULL_HANDLE" ∨
        (∃ action ∈ plan.set.actions,
          .tagged "XrAction" (actionHandle style action.name) "XR_NULL_HANDLE" = declaration) ∨
        ∃ hand ∈ plan.hands,
          .tagged "XrPath" (handPath style hand) "XR_NULL_PATH" = declaration := by
  rw [Struct.mem_fields]
  simp [handles, createSpaces]

theorem method?_handles :
    (handles style plan).method? "Initialize" = some (createHandles style plan) := by
  have hmethods : ∃ after, (handles style plan).methods =
      [destructor style plan.set] ++ createHandles style plan :: after := ⟨_, rfl⟩
  rcases hmethods with ⟨after, hmethods⟩
  refine Struct.method?_eq_some hmethods ?_
  intro other hother hname
  rw [List.mem_singleton.1 hother] at hname
  -- the name of the destructor starts with a tilde
  have hfirst := congrArg (fun text => text.toList.head?) hname
  simp [destructor, createHandles] at hfirst

/-- The members for spaces are blank lines and methods. -/
theorem eq_of_mem_createSpaces {member : Member}
    (h : member ∈ plan.actions.flatMap (createSpaces style)) :
    member = .blank ∨
      ∃ action subaction, member = .method (createSpace style action subaction) := by
  obtain ⟨part, -, hspace⟩ := List.mem_flatMap.1 h
  unfold createSpaces at hspace
  split at hspace
  · obtain ⟨subaction, -, hpair⟩ := List.mem_flatMap.1 hspace
    exact (List.mem_pair.1 hpair).imp_right fun hmethod => ⟨part.action, subaction, hmethod⟩
  · cases hspace

/-- The set is created first, then the paths are found, and then the actions are created. -/
theorem createHandles_statements :
    (createHandles style plan).statements =
      createSet style plan.set ++
        (plan.hands.map (fun hand => resolvePath hand.userPath (handPath style hand)) ++
          (plan.actions.flatMap (createAction style) ++ [returnResult])) := by
  simp [createHandles, Method.statements, Code.statements, ifSucceeded, List.flatMap_assoc,
    List.map_eq_flatMap]

theorem mem_createHandles {statement : Statement} :
    statement ∈ (createHandles style plan).statements ↔
      statement ∈ createSet style plan.set ∨
        (∃ hand ∈ plan.hands, resolvePath hand.userPath (handPath style hand) = statement) ∨
        (∃ action ∈ plan.actions, statement ∈ createAction style action) ∨
        statement = returnResult := by
  rw [createHandles_statements]
  simp only [List.mem_append, List.mem_map, List.mem_flatMap, List.mem_singleton]

/-- An action is created for the paths of its hands. -/
theorem createAction_listed {action : ActionPlan} {type name : String} {elements : List Operand}
    (h : .declare (.listed type name elements) ∈ createAction style action) :
    elements = action.hands.map fun hand => .word (handPath style hand) := by
  unfold createAction at h
  cases hempty : action.hands.isEmpty <;>
    simp_all [setMember, copyText, keepResult]

/-! ## The struct of the states -/

/-- An input has access to its state when its type has. -/
theorem mem_accessedInputs {actions : List ActionPlan} {input : ActionPlan}
    {access : StateAccess} :
    (input, access) ∈ accessedInputs actions ↔
      input ∈ actions ∧ input.action.type.stateAccess? = some access := by
  simp [accessedInputs]

theorem mem_stateFields {declaration : Declaration} :
    declaration ∈ (states style plan).fields ↔ declaration ∈ stateFields style plan := by
  rw [Struct.mem_fields]
  simp [states, handStates]

/-- There is a field for the state of an input and each of its subactions. -/
theorem stateField_mem {input : ActionPlan} {access : StateAccess} {subaction : Subaction}
    (hinput : (input, access) ∈ accessedInputs plan.actions)
    (hsubaction : subaction ∈ input.subactions) :
    stateField style input.action.name subaction ∈
      (states style plan).fields.map Declaration.name := by
  refine List.mem_map.2 ⟨.tagged access.type _ access.tag, mem_stateFields.2 ?_, rfl⟩
  exact List.mem_flatMap.2 ⟨(input, access), hinput, List.mem_map.2 ⟨subaction, hsubaction, rfl⟩⟩

/-- The methods fetch all states and give those of one hand. -/
theorem mem_methods_states {method : Method} (h : method ∈ (states style plan).methods) :
    method = updateStates style plan ∨ method = getHandStates style plan := by
  rw [Struct.mem_methods] at h
  simp only [states, handStates, List.append_assoc, List.cons_append, List.nil_append,
    List.isEmpty_iff, List.mem_append, List.mem_ite_nil_right, List.mem_cons, reduceCtorEq,
    List.not_mem_nil, or_self, and_false, Member.method.injEq, or_false, false_or,
    List.mem_ite_nil_left, List.mem_map, exists_false] at h
  exact h.imp_right And.right

/-- The states are fetched input by input. -/
theorem updateStates_statements :
    (updateStates style plan).statements =
      [.declare (.tagged "XrActionStateGetInfo" "actionStateGetInfo"
        "XR_TYPE_ACTION_STATE_GET_INFO"), startResult] ++
      ((accessedInputs plan.actions).flatMap (fun input =>
        input.1.subactions.flatMap (fetchState style input.1.action input.2)) ++
        [returnResult]) := by
  simp [updateStates, Method.statements, Code.statements, ifSucceeded, List.flatMap_assoc]

/-- Between its start and its end, the method does nothing but fetch states. -/
theorem mem_updateStates {statement : Statement} :
    statement ∈ (updateStates style plan).statements ↔
      (statement = .declare (.tagged "XrActionStateGetInfo" "actionStateGetInfo"
          "XR_TYPE_ACTION_STATE_GET_INFO") ∨ statement = startResult) ∨
        (∃ input ∈ accessedInputs plan.actions, ∃ subaction ∈ input.1.subactions,
          statement ∈ fetchState style input.1.action input.2 subaction) ∨
        statement = returnResult := by
  rw [updateStates_statements]
  simp only [List.mem_append, List.mem_pair, List.mem_flatMap, List.mem_singleton]

theorem method?_states :
    (states style plan).method? "UpdateActionStates" = some (updateStates style plan) := by
  have hmethods : ∃ after, (states style plan).methods =
      [] ++ updateStates style plan :: after := by
    unfold states Struct.methods
    cases hasHandStates plan <;> exact ⟨_, rfl⟩
  rcases hmethods with ⟨after, hmethods⟩
  exact Struct.method?_eq_some hmethods (by simp)

/-- `GetSubactionStates` returns the states of a hand in use, or none. -/
theorem getHandStates_statement {statement : Statement}
    (h : statement ∈ (getHandStates style plan).statements) :
    statement = .returnsDefault "Unknown subaction path." ∨ ∃ hand ∈ plan.hands,
      statement =
        .returns (.braces (.word "subactionPath" :: handStatePointers style plan hand)) := by
  -- the first hand has a branch of another form than the others
  cases hhands : plan.hands with
  | nil =>
    simpa [getHandStates, hhands, Method.statements, Code.statements] using h
  | cons first others =>
    simp only [getHandStates, hhands, handBranch, Method.statements, Code.statements,
      List.cons_append, List.nil_append, List.append_nil, List.flatMap_cons, List.flatMap_append,
      List.flatMap_nil, List.mem_cons, List.mem_append, List.mem_flatMap, List.mem_map,
      exists_exists_and_eq_and, List.not_mem_nil, or_false] at h
    rcases h with h | h | h
    · exact .inr ⟨first, List.mem_cons_self, h⟩
    · rcases h with ⟨hand, hhand, h⟩
      exact .inr ⟨hand, List.mem_cons_of_mem _ hhand, h⟩
    · exact .inl h

/-- It compares the path that is asked for with those of the hands in use. -/
theorem getHandStates_guard {guard : Guard} {operand : Operand}
    (hguard : guard ∈ (getHandStates style plan).guards) (h : operand ∈ guard.operands) :
    operand = .word "subactionPath" ∨
      ∃ hand ∈ plan.hands, operand = handle (handPath style hand) := by
  cases hhands : plan.hands with
  | nil =>
    simp only [getHandStates, hhands, Method.guards, Code.guards, List.nil_append,
      List.append_nil, List.flatMap_cons, List.flatMap_nil, List.mem_cons, List.not_mem_nil,
      or_false] at hguard
    rw [hguard] at h
    cases h
  | cons first others =>
    simp only [getHandStates, hhands, handBranch, Method.guards, Code.guards, List.cons_append,
      List.nil_append, List.append_nil, List.flatMap_cons, List.flatMap_append,
      List.flatMap_nil, List.mem_cons, List.mem_append, List.mem_flatMap, List.mem_map,
      exists_exists_and_eq_and, List.not_mem_nil, or_false] at hguard
    rcases hguard with rfl | ⟨hand, hhand, rfl⟩ | rfl
    · simp only [Guard.operands, Condition.operands, List.mem_cons, List.not_mem_nil,
        or_false] at h
      exact h.imp_right fun h => ⟨first, List.mem_cons_self, h⟩
    · simp only [Guard.operands, Condition.operands, List.mem_cons, List.not_mem_nil,
        or_false] at h
      exact h.imp_right fun h => ⟨hand, List.mem_cons_of_mem _ hhand, h⟩
    · cases h

/-- Every kind of action but outputs has a state. -/
theorem stateAccess?_of_isInput {input : ActionPlan} (h : input.isInput = true) :
    ∃ access, input.action.type.stateAccess? = some access := by
  cases htype : input.action.type <;>
    simp [ActionPlan.isInput, ActionType.isOutput, htype, ActionType.stateAccess?] at h ⊢

/-- A pointer to a state is for an input that has this state. -/
theorem address_mem_handStatePointers {hand : Hand} {name : String}
    (h : .address name ∈ handStatePointers style plan hand) :
    ∃ input access, (input, access) ∈ accessedInputs plan.actions ∧
      Subaction.hand hand ∈ input.subactions ∧
      name = stateField style input.action.name (.hand hand) := by
  rcases List.mem_map.1 h with ⟨input, hinput, hpointer⟩
  rcases List.mem_filter.1 hinput with ⟨hmem, -⟩
  rcases List.mem_filter.1 hmem with ⟨haction, hisInput⟩
  rcases stateAccess?_of_isInput hisInput with ⟨access, haccess⟩
  -- for a hand without the subaction the pointer is null
  split at hpointer
  · rename_i hsubaction
    refine ⟨input, access, mem_accessedInputs.2 ⟨haction, haccess⟩, hsubaction, ?_⟩
    exact (Operand.address.inj hpointer).symm
  · cases hpointer

/-! ## The struct of the tables -/

/-- Declares the local variable for a binding path. -/
def declarePath (style : Style) (path : String) : Statement :=
  .declare (.preset "XrPath" (bindingPath style path) (.operand (.word "XR_NULL_PATH")))

/-- Finds a binding path and stores it in its local variable. -/
def findPath (style : Style) (path : String) : Statement :=
  resolvePath path (bindingPath style path)

/-- What `Initialize` does in front of the entries of the tables. -/
def findPaths (style : Style) (plan : Plan) : List Statement :=
  (startResult :: plan.set.profiles.map fun suggested =>
    resolvePath suggested.profile (profilePath style suggested.profile)) ++
  (plan.paths.map (declarePath style) ++ plan.paths.map (findPath style))

/-- The paths are found in front of all entries. -/
theorem createTables_statements :
    (createTables style plan).statements =
      findPaths style plan ++ (plan.set.profiles.flatMap (fillTable style) ++ [returnResult]) := by
  simp [createTables, findPaths, Method.statements, Code.statements, ifSucceeded,
    List.flatMap_assoc, List.map_eq_flatMap, declarePath, findPath]

/-- In front of the entries, nothing is assigned to a variable but `result`. -/
theorem eq_of_mem_findPaths {statement : Statement} (h : statement ∈ findPaths style plan) :
    statement = startResult ∨ (∃ path ∈ plan.paths, statement = declarePath style path) ∨
      ∃ path target, statement = resolvePath path target := by
  simp only [findPaths, List.mem_append, List.mem_cons, List.mem_map] at h
  rcases h with (rfl | ⟨suggested, -, rfl⟩) | ⟨path, hpath, rfl⟩ | ⟨path, hpath, rfl⟩
  · exact .inl rfl
  · exact .inr (.inr ⟨_, _, rfl⟩)
  · exact .inr (.inl ⟨path, hpath, rfl⟩)
  · exact .inr (.inr ⟨_, _, rfl⟩)

/-- Behind them there are entries only, and the end. -/
theorem eq_of_mem_fillTables {statement : Statement}
    (h : statement ∈ plan.set.profiles.flatMap (fillTable style) ++ [returnResult]) :
    statement = returnResult ∨ ∃ profile ∈ plan.set.profiles, ∃ pair ∈ profile.bindings.pairs,
      ∃ index, statement = .assign (.entry (bindingTable style profile.profile) index)
        (.braces [handle (actionHandle style pair.1), .word (bindingPath style pair.2)]) := by
  rcases List.mem_append.1 h with hfill | hreturn
  · rcases List.mem_flatMap.1 hfill with ⟨profile, hprofile, hentry⟩
    rcases List.mem_mapIdx.1 hentry with ⟨index, hindex, rfl⟩
    exact .inr ⟨profile, hprofile, _, List.getElem_mem hindex, index, rfl⟩
  · exact .inl (List.mem_singleton.1 hreturn)

/-- What stands in front of an entry starts with all that is in front of the entries. -/
theorem before_entry {before after : List Statement} {table : String} {index : Nat}
    {value : Value}
    (h : (createTables style plan).statements =
      before ++ .assign (.entry table index) value :: after) :
    ∃ more, before = findPaths style plan ++ more ∧
      plan.set.profiles.flatMap (fillTable style) ++ [returnResult] =
        more ++ .assign (.entry table index) value :: after := by
  rw [createTables_statements] at h
  rcases List.append_eq_append_iff.1 h with ⟨more, hbefore, hmore⟩ | ⟨more, hmore, hback⟩
  · exact ⟨more, hbefore, hmore⟩
  · cases more with
    | nil => exact ⟨[], by simpa using hmore.symm, hback.symm⟩
    | cons first more =>
      -- otherwise the entry would stand among the statements that find the paths
      have hmem : .assign (.entry table index) value ∈ findPaths style plan := by
        rw [hmore, (List.cons.inj hback).1]
        simp
      rcases eq_of_mem_findPaths hmem with hstart | ⟨path, -, hdeclare⟩ | ⟨path, target, hfind⟩
      · cases hstart
      · cases hdeclare
      · cases hfind

/-- The fields are a path and a table for each profile. -/
theorem mem_fields_tables {declaration : Declaration} :
    declaration ∈ (tables style plan).fields ↔
      (∃ suggested ∈ plan.set.profiles,
        .plain "XrPath" (profilePath style suggested.profile) = declaration) ∨
      ∃ suggested ∈ plan.set.profiles,
        .sized "XrActionSuggestedBinding" (bindingTable style suggested.profile)
          suggested.bindings.count = declaration := by
  rw [Struct.mem_fields]
  simp [tables]

theorem mem_methods_tables {method : Method} :
    method ∈ (tables style plan).methods ↔
      method = createTables style plan ∨ method = suggestTables style plan := by
  rw [Struct.mem_methods]
  simp [tables]

theorem method?_tables :
    (tables style plan).method? "Initialize" = some (createTables style plan) := by
  have hmethods : ∃ after, (tables style plan).methods =
      [] ++ createTables style plan :: after := ⟨_, rfl⟩
  rcases hmethods with ⟨after, hmethods⟩
  exact Struct.method?_eq_some hmethods (by simp)

/-- The tables are submitted profile by profile. -/
theorem suggestTables_statements :
    (suggestTables style plan).statements =
      startResult :: (plan.set.profiles.flatMap (suggestTable style) ++ [returnResult]) := by
  simp [suggestTables, Method.statements, Code.statements, ifSucceeded, List.flatMap_assoc]

theorem mem_suggestTables {statement : Statement} :
    statement ∈ (suggestTables style plan).statements ↔
      statement = startResult ∨
        (∃ suggested ∈ plan.set.profiles, statement ∈ suggestTable style suggested) ∨
        statement = returnResult := by
  rw [suggestTables_statements]
  simp only [List.mem_cons, List.mem_append, List.mem_flatMap, List.not_mem_nil, or_false]

/-! ## Guards -/

/-- All branches of the method are for success. -/
theorem createHandles_guards : ∀ guard ∈ (createHandles style plan).guards,
    guard = .when .succeeded := by
  simp only [createHandles, ifSucceeded, Method.guards, Code.guards, List.append_nil,
    List.flatMap_cons, List.flatMap_append, List.flatMap_nil, List.mem_append, List.mem_flatMap,
    List.mem_map, exists_exists_and_eq_and, List.mem_cons, List.not_mem_nil, or_false, and_false,
    exists_false, false_or]
  rintro guard (⟨_, ⟨_, -, rfl | rfl⟩, h⟩ | ⟨_, ⟨_, -, rfl | rfl⟩, h⟩)
  · cases h
  · simpa using h
  · cases h
  · simpa using h

theorem updateStates_guards : ∀ guard ∈ (updateStates style plan).guards,
    guard = .when .succeeded := by
  simp only [updateStates, ifSucceeded, Method.guards, Code.guards, List.cons_append,
    List.nil_append, List.append_nil, List.flatMap_cons, List.flatMap_append, List.flatMap_nil,
    List.mem_flatMap, List.mem_cons, List.not_mem_nil, or_false, Prod.exists,
    forall_exists_index, and_imp]
  rintro guard _ _ _ - _ - (rfl | rfl) h
  · cases h
  · simpa using h

theorem createTables_guards : ∀ guard ∈ (createTables style plan).guards,
    guard = .when .succeeded := by
  simp only [createTables, ifSucceeded, Method.guards, Code.guards, List.cons_append,
    List.nil_append, List.append_assoc, List.append_nil, List.flatMap_cons,
    List.flatMap_append, List.flatMap_nil, List.mem_append, List.mem_flatMap, List.mem_map,
    exists_exists_and_eq_and, List.mem_cons, List.not_mem_nil, or_false, exists_and_right,
    and_false, exists_const, false_or]
  rintro guard (⟨-, rfl⟩ | ⟨-, rfl⟩ | rfl) <;> rfl

theorem suggestTables_guards : ∀ guard ∈ (suggestTables style plan).guards,
    guard = .when .succeeded := by
  simp only [suggestTables, ifSucceeded, Method.guards, Code.guards, List.cons_append,
    List.nil_append, List.append_nil, List.flatMap_cons, List.flatMap_append, List.flatMap_nil,
    List.mem_flatMap, List.mem_cons, List.not_mem_nil, or_false, forall_exists_index, and_imp]
  rintro guard _ _ - (rfl | rfl) h
  · cases h
  · simpa using h

end XrManifest.Header
