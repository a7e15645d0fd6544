import XrManifest.Proofs.Cpp.Strays
import XrManifest.Proofs.Header.PlainCode

/-!
# The literals of a header

Which texts the structs of an action set have in literals, in the order in which they are
written. The main statements are `Header.strays_text` and `Header.straysOf_literals`: the stray
characters of a header are those of its literals, and these are the ones of the texts that are
quoted from the manifest.
-/

namespace XrManifest.Cpp

/-! ## Literals of code -/

def Statement.literals (statement : Statement) : List String := Cpp.literals statement.operands

theorem literals_flatMap {α : Type} (items : List α) (operands : α → List Operand) :
    literals (items.flatMap operands) = items.flatMap fun item => literals (operands item) :=
  List.flatMap_assoc

def Member.literals (member : Member) : List String := Cpp.literals member.operands

/-- The literals of a struct are those of its members. -/
theorem Struct.literals_eq (struct : Struct) :
    struct.literals = struct.members.flatMap Member.literals :=
  literals_flatMap struct.members Member.operands

/-- Where no literal is compared, the literals of a method are those of its statements. -/
theorem Method.literals_eq {method : Method}
    (h : ∀ guard ∈ method.guards, literals guard.operands = []) :
    literals method.operands = method.statements.flatMap Statement.literals := by
  have hcode : ∀ code ∈ method.body,
      literals code.operands = code.statements.flatMap Statement.literals := by
    intro code hmem
    cases code with
    | statement line => exact (List.append_nil _).symm
    | blank => rfl
    | branch guard body =>
      -- the guards have no literals, and what is left is the body
      have hguard := h guard (List.mem_flatMap.2 ⟨_, hmem, List.mem_cons_self⟩)
      rw [Code.operands, literals_append, hguard, literals_flatMap]
      rfl
  rw [Method.operands, Method.statements, literals_flatMap, List.flatMap_assoc]
  exact List.flatMap_congr hcode

end XrManifest.Cpp

namespace XrManifest

open XrManifest.Cpp XrManifest.Naming

namespace Header

section
variable {style : Style} {plan : Plan}

/-! ## Literals of a header -/

theorem literals_succeeded {guards : List Guard} (h : ∀ guard ∈ guards, guard = .when .succeeded) :
    ∀ guard ∈ guards, literals guard.operands = [] := by
  intro guard hguard
  rw [h guard hguard]
  rfl

/-- An action is created with its two names. -/
theorem literals_createAction (part : ActionPlan) :
    (createAction style part).flatMap Statement.literals =
      [part.action.name, part.action.localizedName] := by
  obtain ⟨action, hands, subactions⟩ := part
  cases hands with
  | nil => rfl
  | cons first others =>
    -- the paths of the hands are listed by the names of variables
    have hlist : literals ((first :: others).map fun hand => .word (handPath style hand)) = [] := by
      rw [literals, List.flatMap_map]
      exact List.flatMap_eq_nil_iff.2 fun _ _ => rfl
    exact congrArg (fun texts => texts ++ [action.name, action.localizedName]) hlist

/-- The literals are the names of the set, the paths of the hands, and the names of the actions. -/
theorem literals_createHandles :
    literals (createHandles style plan).operands =
      [plan.set.name, plan.set.localizedName] ++ (plan.hands.map Hand.userPath ++
        plan.actions.flatMap fun part => [part.action.name, part.action.localizedName]) := by
  have hset : (createSet style plan.set).flatMap Statement.literals =
      [plan.set.name, plan.set.localizedName] := rfl
  have hhands : (plan.hands.map fun hand =>
      resolvePath hand.userPath (handPath style hand)).flatMap Statement.literals =
        plan.hands.map Hand.userPath := by
    rw [List.flatMap_map, List.map_eq_flatMap]
    rfl
  have hreturn : [returnResult].flatMap Statement.literals = [] := rfl
  -- the literals come in the order of the statements: set, paths, actions
  rw [Method.literals_eq (literals_succeeded createHandles_guards), createHandles_statements]
  simp only [List.flatMap_append, List.flatMap_assoc, hset, hhands, literals_createAction, hreturn,
    List.append_nil]

theorem literals_createSpace (action : Action) (subaction : Subaction) :
    literals (createSpace style action subaction).operands = [] := by
  cases subaction <;> rfl

theorem literals_handles :
    (handles style plan).literals =
      [plan.set.name, plan.set.localizedName] ++ (plan.hands.map Hand.userPath ++
        plan.actions.flatMap fun part => [part.action.name, part.action.localizedName]) := by
  have hstart : ([.method (destructor style plan.set), .blank,
      .method (createHandles style plan)] : List Member).flatMap Member.literals =
        literals (createHandles style plan).operands := List.append_nil _
  -- neither the methods for spaces nor any field has a literal
  have hspaces : (plan.actions.flatMap (createSpaces style)).flatMap Member.literals = [] := by
    refine List.flatMap_eq_nil_iff.2 fun member hmember => ?_
    rcases eq_of_mem_createSpaces hmember with rfl | ⟨action, subaction, rfl⟩
    · rfl
    · exact literals_createSpace action subaction
  have hactions : (plan.set.actions.map fun action => Member.field
      (.tagged "XrAction" (actionHandle style action.name) "XR_NULL_HANDLE")).flatMap
        Member.literals = [] :=
    List.flatMap_eq_nil_iff.2 (List.forall_mem_map.2 fun _ _ => rfl)
  have hpaths : (plan.hands.map fun hand => Member.field
      (.tagged "XrPath" (handPath style hand) "XR_NULL_PATH")).flatMap Member.literals = [] :=
    List.flatMap_eq_nil_iff.2 (List.forall_mem_map.2 fun _ _ => rfl)
  have hblank : (if plan.hands.isEmpty then [] else [Member.blank]).flatMap Member.literals =
      [] := by
    split <;> rfl
  have hset : ([.blank, .field (.tagged "XrActionSet" (setHandle style) "XR_NULL_HANDLE"),
      .blank] : List Member).flatMap Member.literals = [] := rfl
  simp only [Struct.literals_eq, handles, List.flatMap_append, hstart, hspaces, hset, hactions,
    hblank, hpaths, List.append_nil]
  exact literals_createHandles

/-- Operands without literals. -/
theorem literals_eq_nil {operands : List Operand}
    (h : ∀ operand ∈ operands, operand.literals = []) : literals operands = [] :=
  List.flatMap_eq_nil_iff.2 h

theorem literals_updateStates : literals (updateStates style plan).operands = [] := by
  have hfetch : ∀ input : ActionPlan × StateAccess, ∀ subaction : Subaction,
      (fetchState style input.1.action input.2 subaction).flatMap Statement.literals = [] := by
    intro input subaction
    cases subaction <;> rfl
  have hinputs : ((accessedInputs plan.actions).flatMap fun input =>
      input.1.subactions.flatMap (fetchState style input.1.action input.2)).flatMap
        Statement.literals = [] := by
    simp only [List.flatMap_assoc, hfetch, List.flatMap_eq_nil_iff, implies_true]
  rw [Method.literals_eq (literals_succeeded updateStates_guards), updateStates_statements,
    List.flatMap_append, List.flatMap_append, hinputs]
  rfl

theorem literals_getHandStates : literals (getHandStates style plan).operands = [] := by
  have hguards : ∀ guard ∈ (getHandStates style plan).guards, literals guard.operands = [] := by
    refine fun guard hguard => literals_eq_nil fun operand hoperand => ?_
    rcases getHandStates_guard hguard hoperand with rfl | ⟨hand, -, rfl⟩ <;> rfl
  rw [Method.literals_eq hguards]
  refine List.flatMap_eq_nil_iff.2 fun statement hstatement => ?_
  rcases getHandStates_statement hstatement with rfl | ⟨hand, -, rfl⟩
  · rfl
  · refine literals_eq_nil (List.forall_mem_cons.2 ⟨rfl, fun operand hoperand => ?_⟩)
    obtain ⟨input, -, rfl⟩ := List.mem_map.1 hoperand
    split <;> rfl

/-- The states need no names. -/
theorem literals_states : (states style plan).literals = [] := by
  have hrecord : (handStates style plan).literals = [] := by
    refine literals_eq_nil fun operand hoperand => ?_
    obtain ⟨field, hfield, hmem⟩ := List.mem_flatMap.1 hoperand
    rcases List.mem_cons.1 hfield with rfl | hpointer
    · rw [List.mem_singleton.1 hmem]
      rfl
    · obtain ⟨input, -, rfl⟩ := List.mem_map.1 hpointer
      rw [List.mem_singleton.1 hmem]
      rfl
  rw [Struct.literals_eq]
  refine List.flatMap_eq_nil_iff.2 fun member hmember => ?_
  cases member with
  | blank => rfl
  | field declaration =>
    have hfield := mem_stateFields.1 (Struct.mem_fields.2 hmember)
    obtain ⟨input, -, hinput⟩ := List.mem_flatMap.1 hfield
    obtain ⟨subaction, -, rfl⟩ := List.mem_map.1 hinput
    rfl
  | method method =>
    rcases mem_methods_states (Struct.mem_methods.2 hmember) with rfl | rfl
    · exact literals_updateStates
    · exact literals_getHandStates
  | record name fields =>
    simp only [states, List.mem_append, List.mem_ite_nil_right, List.mem_ite_nil_left,
      List.mem_cons, List.mem_map, List.not_mem_nil, reduceCtorEq, and_false, or_false,
      exists_false] at hmember
    -- the states of one hand are the only struct inside of it
    rw [hmember.2]
    exact hrecord

/-- The literals are the profiles and the binding paths. -/
theorem literals_createTables :
    literals (createTables style plan).operands =
      plan.set.profiles.map ProfileBindings.profile ++ plan.paths := by
  have hstart : Statement.literals startResult = [] := rfl
  have hprofiles : (plan.set.profiles.map fun suggested =>
      resolvePath suggested.profile (profilePath style suggested.profile)).flatMap
        Statement.literals = plan.set.profiles.map ProfileBindings.profile := by
    rw [List.flatMap_map, List.map_eq_flatMap]
    rfl
  have hdeclare : (plan.paths.map (declarePath style)).flatMap Statement.literals = [] :=
    List.flatMap_eq_nil_iff.2 (List.forall_mem_map.2 fun _ _ => rfl)
  have hfind : (plan.paths.map (findPath style)).flatMap Statement.literals = plan.paths := by
    rw [List.flatMap_map]
    exact List.flatMap_singleton' plan.paths
  -- the entries of the tables speak of variables only
  have hfill : (plan.set.profiles.flatMap (fillTable style) ++ [returnResult]).flatMap
      Statement.literals = [] := by
    refine List.flatMap_eq_nil_iff.2 fun statement hstatement => ?_
    rcases eq_of_mem_fillTables hstatement with rfl | ⟨_, -, _, -, _, rfl⟩ <;> rfl
  rw [Method.literals_eq (literals_succeeded createTables_guards), createTables_statements,
    List.flatMap_append, hfill, findPaths, List.flatMap_append, List.flatMap_append,
    List.flatMap_cons, hstart, hprofiles, hdeclare, hfind, List.append_nil]
  rfl

theorem literals_suggestTables : literals (suggestTables style plan).operands = [] := by
  rw [Method.literals_eq (literals_succeeded suggestTables_guards)]
  refine List.flatMap_eq_nil_iff.2 fun statement hstatement => ?_
  rcases mem_suggestTables.1 hstatement with rfl | ⟨suggested, -, hmem⟩ | rfl
  · rfl
  · simp only [suggestTable, List.mem_cons, List.not_mem_nil, or_false] at hmem
    rcases hmem with rfl | rfl | rfl | rfl | rfl <;> rfl
  · rfl

theorem literals_tables :
    (tables style plan).literals = plan.set.profiles.map ProfileBindings.profile ++ plan.paths := by
  have hmethods : ([.method (createTables style plan), .blank,
      .method (suggestTables style plan), .blank] : List Member).flatMap Member.literals =
        literals (createTables style plan).operands ++
          literals (suggestTables style plan).operands := by
    simp [Member.literals, Member.operands, literals]
  have hpaths : (plan.set.profiles.map fun suggested => Member.field
      (.plain "XrPath" (profilePath style suggested.profile))).flatMap Member.literals = [] :=
    List.flatMap_eq_nil_iff.2 (List.forall_mem_map.2 fun _ _ => rfl)
  have htables : (plan.set.profiles.map fun suggested => Member.field
      (.sized "XrActionSuggestedBinding" (bindingTable style suggested.profile)
        suggested.bindings.count)).flatMap Member.literals = [] :=
    List.flatMap_eq_nil_iff.2 (List.forall_mem_map.2 fun _ _ => rfl)
  have hblank : [Member.blank].flatMap Member.literals = [] := rfl
  rw [Struct.literals_eq]
  simp only [tables, List.flatMap_append, hmethods, hpaths, hblank, htables, literals_createTables,
    literals_suggestTables, List.append_nil]

def SetStructs.literals (structs : SetStructs) : List String :=
  structs.toList.flatMap Struct.literals

def literals (header : Header) : List String := header.sets.flatMap SetStructs.literals

end

end Header

/-- The texts of an action set that its structs have in literals. -/
def ActionSet.quoted (set : ActionSet) : List String :=
  [set.name, set.localizedName] ++
    (set.actions.flatMap fun action => [action.name, action.localizedName]) ++
    set.profiles.map ProfileBindings.profile ++ set.distinctPaths

/-- The texts of a manifest that its header has in literals. -/
def Manifest.quoted (manifest : Manifest) : List String :=
  manifest.actionSets.flatMap ActionSet.quoted

namespace Header

variable {style : Style} {manifest : Manifest} {header : Header}

/-! ## Strays of a header -/

/-- The other literals of the structs are the paths of the hands, which have no strays. -/
theorem SetStructs.straysOf_literals {plan : Plan} (hplan : plan.Derived) :
    straysOf (SetStructs.ofPlan style plan).literals = straysOf plan.set.quoted := by
  have hstructs : (SetStructs.ofPlan style plan).literals =
      (Header.handles style plan).literals ++ ((Header.states style plan).literals ++
        ((Header.tables style plan).literals ++ [])) := rfl
  have hhands : straysOf (plan.hands.map Hand.userPath) = [] := by
    refine List.flatMap_eq_nil_iff.2 (List.forall_mem_map.2 fun hand _ => ?_)
    cases hand <;> rfl
  rw [hstructs, literals_handles, literals_states, literals_tables, hplan.paths, ActionSet.quoted,
    ← hplan.actions, List.flatMap_map]
  simp only [straysOf_append, hhands, List.nil_append, List.append_nil, List.append_assoc]

/-- The structs of a set carry the strays of the literals in them. -/
theorem SetStructs.carries (plan : Plan) :
    (SetStructs.ofPlan style plan).layout.Carries
      ((SetStructs.ofPlan style plan).toList.flatMap fun struct =>
        struct.members.flatMap Member.operands) :=
  Layout.carries_stack fun _ hstruct =>
    Layout.carries_blank.append (SetStructs.plain hstruct).carries

/-- The text of a header has the strays of its literals, and no others. -/
theorem strays_text (h : ofManifest style manifest = .ok header) :
    strays header.text.toList = straysOf header.literals := by
  obtain ⟨plans, -, hsets⟩ := ofManifest_eq_ok.1 h
  have hpragma : Layout.Carries (.line "#pragma once") [] := Layout.carries_bare rfl
  have hcarries : header.layout.Carries ([] ++ [] ++ header.sets.flatMap fun structs =>
      structs.toList.flatMap fun struct => struct.members.flatMap Member.operands) := by
    refine (hpragma.append Layout.carries_blank).append (Layout.carries_stack ?_)
    intro structs hstructs
    rw [hsets] at hstructs
    obtain ⟨plan, -, rfl⟩ := List.mem_map.1 hstructs
    exact SetStructs.carries plan
  rw [text, hcarries.strays_render, List.nil_append, List.nil_append, literals_flatMap]
  exact congrArg straysOf (List.flatMap_congr fun structs _ => literals_flatMap _ _)

/-- The strays of the literals are those of the texts of the manifest. -/
theorem straysOf_literals (h : ofManifest style manifest = .ok header) :
    straysOf header.literals = straysOf manifest.quoted := by
  obtain ⟨plans, hplans, hsets⟩ := ofManifest_eq_ok.1 h
  have hsame : plans.map Plan.set = manifest.actionSets :=
    map_of_mapM (fun _ _ hplan => (Plan.ofActionSet_eq_ok hplan).1) hplans
  simp only [literals, Manifest.quoted, straysOf, List.flatMap_assoc, hsets, ← hsame,
    List.flatMap_map]
  refine List.flatMap_congr fun plan hplan => ?_
  obtain ⟨set, -, hstep⟩ := exists_step_of_mapM hplans hplan
  exact SetStructs.straysOf_literals (Plan.derived_of_ofActionSet hstep).2

end Header

end XrManifest
