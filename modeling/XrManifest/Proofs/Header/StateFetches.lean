import XrManifest.Proofs.BoundPaths
import XrManifest.Proofs.Header.Parsing

/-!
# States of actions

An input is read as a whole or for each of its hands. There is one field for each state
that is read, and one fetch that stores into it. The main statement is
`Manifest.header_readsStates`.
-/

namespace XrManifest

/-! ## Names of OpenXR -/

/-- A text in capital letters, which the constants of OpenXR are written in. -/
def capitals (text : String) : String := String.ofList (text.toList.map Char.toUpper)

/-- The constant for a kind of action has the name of the kind, but for the one output. -/
theorem ActionType.constant_eq (type : ActionType) :
    type.constant = if type.isOutput then "XR_ACTION_TYPE_VIBRATION_OUTPUT"
      else "XR_ACTION_TYPE_" ++ capitals type.name ++ "_INPUT" := by
  cases type <;> decide

/-- The type, its mark and the getter of a state all have the name of the kind of action. Nothing
but an output is without a state. -/
theorem ActionType.stateAccess?_eq (type : ActionType) :
    type.stateAccess? = if type.isOutput then none
      else some {
        type := "XrActionState" ++ type.name
        tag := "XR_TYPE_ACTION_STATE_" ++ capitals type.name
        getter := "xrGetActionState" ++ type.name } := by
  cases type <;> decide

theorem ActionType.name_injective : Function.Injective ActionType.name := by
  intro first second
  cases first <;> cases second <;> decide

/-- Different kinds of action have different getters. -/
theorem ActionType.eq_of_getter {first second : ActionType} {access other : StateAccess}
    (hfirst : first.stateAccess? = some access) (hsecond : second.stateAccess? = some other)
    (hgetter : access.getter = other.getter) : first = second := by
  rw [stateAccess?_eq] at hfirst hsecond
  obtain ⟨-, hfirst⟩ := Option.ite_none_left_eq_some.1 hfirst
  obtain ⟨-, hsecond⟩ := Option.ite_none_left_eq_some.1 hsecond
  rcases Option.some.inj hfirst with rfl
  rcases Option.some.inj hsecond with rfl
  exact name_injective (by simpa using hgetter)

namespace Header

open XrManifest.Cpp XrManifest.Naming

/-! ## What is read -/

/-- What the state of an action of a set is read for. -/
structure ReadFor (set : ActionSet) (action : Action) (subactions : List Subaction) : Prop where
  /-- An output has no state. -/
  haptic : action.type = .haptic → subactions = []
  /-- The subactions of an input are derived from its set. -/
  derived : action.type ≠ .haptic → set.subactionsOf action true = .ok subactions
  /-- Whatever it is bound to, an input may be read as a whole only. -/
  whole : action.type ≠ .haptic → action.perHand = false → subactions = [.whole]
  /-- Otherwise it is read once for each hand that it is bound under. -/
  perHand : action.type ≠ .haptic → action.perHand = true →
    subactions.Nodup ∧ .whole ∉ subactions ∧
      ∀ hand, .hand hand ∈ subactions ↔
        ∃ path, set.Binds action.name path ∧ hand.owns path = true

/-- Each action with each subaction that it is read for, in order. -/
def readStates (actions : List Action) (reads : List (List Subaction)) :
    List (Action × Subaction) :=
  (actions.zip reads).flatMap fun (action, subactions) =>
    subactions.map fun subaction => (action, subaction)

/-! ## Fetches -/

/-- The path for which the state of a subaction is fetched. -/
def subactionPath (style : Style) : Subaction → Operand
  | .whole => .word "XR_NULL_PATH"
  | .hand hand => handle (handPath style hand)

/-- The fetch of the state of an action for a subaction: it asks for the handle of the action
and the path of the subaction, and then stores into the field of the two. -/
def stateFetch (style : Style) (action : Action) (access : StateAccess)
    (subaction : Subaction) : CallBlock where
  guards := [.when .succeeded]
  declarations := []
  assignments :=
    [(memberOf "actionStateGetInfo" "action",
        .operand (handle (actionHandle style action.name))),
      (memberOf "actionStateGetInfo" "subactionPath", .operand (subactionPath style subaction))]
  calls := []
  last := some (keepResult access.getter [.word "session", .address "actionStateGetInfo",
    .address (stateField style action.name subaction)])

def fetch? (code : Code) : Option CallBlock := callBlock? (fun _ => true) code

/-- A field for the state of an action and a subaction, with the type of the action. -/
def StoresState (style : Style) (read : Action × Subaction) (field : Declaration) : Prop :=
  ∃ access, read.1.type.stateAccess? = some access ∧
    field = .tagged access.type (stateField style read.1.name read.2) access.tag

/-- A fetch of the state of an action and a subaction, with the function for the type of the
action. -/
def FetchesState (style : Style) (read : Action × Subaction) (fetch : CallBlock) : Prop :=
  ∃ access, read.1.type.stateAccess? = some access ∧
    fetch = stateFetch style read.1 access read.2

/-- The states of an action set are declared and fetched in step. -/
structure SetStructs.ReadsStates (structs : SetStructs) (style : Style) (set : ActionSet)
    (reads : List (List Subaction)) : Prop where
  /-- Each action is read for its subactions. -/
  subactions : List.Forall₂ (ReadFor set) set.actions reads
  /-- The fields are for what is read. -/
  fields : List.Forall₂ (StoresState style) (readStates set.actions reads) structs.states.fields
  /-- The fetches are for what is read. The variable in which they ask is declared in front. -/
  fetches : ∃ method, structs.states.method? "UpdateActionStates" = some method ∧
    method.statements.head? = some (.declare (.tagged "XrActionStateGetInfo" "actionStateGetInfo"
      "XR_TYPE_ACTION_STATE_GET_INFO")) ∧
    List.Forall₂ (FetchesState style) (readStates set.actions reads)
      (method.body.filterMap fetch?)

section
variable {style : Style} {set : ActionSet} {plan : Plan}

/-! ## What a plan reads -/

/-- What a plan reads the state of an action for. -/
def readsOf (plan : ActionPlan) : List Subaction :=
  if plan.isInput then plan.subactions else []

/-- The plan of an action has what it is read for. -/
theorem readFor_readsOf {action : Action} {plan : ActionPlan}
    (h : ActionPlan.ofAction set action = .ok plan) : ReadFor set action (readsOf plan) := by
  obtain ⟨hsame, hhands, hderived⟩ := ActionPlan.ofAction_eq_ok h
  have hsubactions := ActionPlan.subactions_of_ofAction h
  have hinput : action.type ≠ .haptic → readsOf plan = plan.subactions := by
    intro hne
    simp [readsOf, ActionPlan.isInput, ActionType.isOutput, hsame, hne]
  -- An output has no subactions. Those of an input were derived, as a whole or by hand.
  constructor
  · intro hhaptic
    simp [readsOf, ActionPlan.isInput, ActionType.isOutput, hsame, hhaptic]
  · intro hne
    rw [hinput hne]
    exact hderived
  · intro hne hwhole
    rw [hinput hne, hsubactions, hwhole]
    rfl
  · intro hne hperHand
    rw [hinput hne, hsubactions, if_pos hperHand]
    obtain ⟨hnodup, hmem⟩ := ActionSet.handsOf_eq_ok hhands
    refine ⟨?_, ?_, ?_⟩
    · exact hnodup.map fun _ _ hsame => Subaction.hand.inj hsame
    · simp
    · intro hand
      simp [hmem]

/-- The plan of a set has what each action is read for. -/
theorem reads_ofActionSet (h : Plan.ofActionSet set = .ok plan) :
    List.Forall₂ (ReadFor set) set.actions (plan.actions.map readsOf) := by
  rw [List.forall₂_map_right_iff]
  have hplans := mapM_eq_ok.1 (Plan.ofActionSet_eq_ok h).2.1
  exact hplans.imp fun action part hpart => readFor_readsOf hpart

theorem readStates_cons (action : ActionPlan) (actions : List ActionPlan) :
    readStates ((action :: actions).map ActionPlan.action) ((action :: actions).map readsOf) =
      (readsOf action).map (fun subaction => (action.action, subaction)) ++
        readStates (actions.map ActionPlan.action) (actions.map readsOf) :=
  rfl

/-- What is made for each state that a plan has access to is made for what it reads. -/
theorem forall₂_accessedInputs {α : Type} {P : Action × Subaction → α → Prop}
    (make : Action → StateAccess → Subaction → α)
    (hmake : ∀ action access subaction, action.type.stateAccess? = some access →
      P (action, subaction) (make action access subaction))
    (actions : List ActionPlan) :
    List.Forall₂ P (readStates (actions.map ActionPlan.action) (actions.map readsOf))
      ((accessedInputs actions).flatMap fun (input, access) =>
        input.subactions.map (make input.action access)) := by
  induction actions with
  | nil => exact .nil
  | cons action actions ih =>
    rw [readStates_cons]
    cases haccess : action.action.type.stateAccess? with
    | none =>
      -- both tests for outputs agree
      have hreads : readsOf action = [] := by
        cases htype : action.action.type <;>
          simp_all [readsOf, ActionPlan.isInput, ActionType.isOutput, ActionType.stateAccess?]
      have hinputs : accessedInputs (action :: actions) = accessedInputs actions := by
        simp [accessedInputs, haccess]
      rw [hreads, hinputs]
      exact ih
    | some access =>
      have hreads : readsOf action = action.subactions := by
        cases htype : action.action.type <;>
          simp_all [readsOf, ActionPlan.isInput, ActionType.isOutput, ActionType.stateAccess?]
      have hinputs : accessedInputs (action :: actions) =
          (action, access) :: accessedInputs actions := by
        simp [accessedInputs, haccess]
      rw [hreads, hinputs, List.flatMap_cons]
      apply List.rel_append _ ih
      rw [List.forall₂_map_left_iff, List.forall₂_map_right_iff, List.forall₂_same]
      intro subaction _
      exact hmake action.action access subaction haccess

/-! ## Fields and fetches -/

theorem fields_states : (states style plan).fields = stateFields style plan := by
  unfold states Struct.fields
  cases hasHandStates plan <;> cases (accessedInputs plan.actions).isEmpty <;>
    simp [handStates]

/-- The code for a state fetches it as it has to. -/
theorem fetch?_fetchState (action : Action) (access : StateAccess) (subaction : Subaction) :
    fetch? (ifSucceeded (fetchState style action access subaction)) =
      some (stateFetch style action access subaction) := by
  cases subaction <;> rfl

/-- The fetches are those of the inputs, subaction by subaction. -/
theorem fetches_updateStates :
    (updateStates style plan).body.filterMap fetch? =
      (accessedInputs plan.actions).flatMap fun (input, access) =>
        input.subactions.map (stateFetch style input.action access) := by
  have hstart : ([.statement (.declare (.tagged "XrActionStateGetInfo" "actionStateGetInfo"
      "XR_TYPE_ACTION_STATE_GET_INFO")), .statement startResult] : List Code).filterMap fetch? =
        [] := rfl
  have hreturn : ([.statement returnResult] : List Code).filterMap fetch? = [] := rfl
  have hblank : fetch? .blank = none := rfl
  unfold updateStates
  rw [List.filterMap_append, List.filterMap_append, hstart, hreturn, List.nil_append,
    List.append_nil, List.filterMap_flatMap]
  -- input by input, what stands behind the blank lines is fetched
  apply List.flatMap_congr
  intro (input, access) _
  show _ = input.subactions.map (stateFetch style input.action access)
  simp only [filterMap_behindBlanks hblank, fetch?_fetchState, ← List.filterMap_eq_map]
  rfl

/-- The code from a plan declares and fetches the states of its set. -/
theorem readsStates_ofPlan (h : Plan.ofActionSet set = .ok plan) :
    (SetStructs.ofPlan style plan).ReadsStates style set (plan.actions.map readsOf) := by
  have hactions : plan.actions.map ActionPlan.action = set.actions := by
    obtain ⟨hset, hderived⟩ := Plan.derived_of_ofActionSet h
    rw [hderived.actions, hset]
  constructor
  · exact reads_ofActionSet h
  · have hfields : (SetStructs.ofPlan style plan).states.fields = stateFields style plan :=
      fields_states
    -- fields and fetches go through the inputs in the same way
    rw [← hactions, hfields]
    apply forall₂_accessedInputs fun action access subaction =>
      Declaration.tagged access.type (stateField style action.name subaction) access.tag
    intro action access subaction haccess
    exact ⟨access, haccess, rfl⟩
  · refine ⟨updateStates style plan, method?_states, rfl, ?_⟩
    rw [← hactions, fetches_updateStates]
    apply forall₂_accessedInputs (stateFetch style)
    intro action access subaction haccess
    exact ⟨access, haccess, rfl⟩

end
end Header

/-! ## Headers -/

/-- For each action set of a manifest, the fields for states and the fetches agree position
by position with what the actions are read for. -/
theorem Manifest.header_readsStates {style : Naming.Style} {manifest : Manifest} {text : String}
    (h : manifest.header style = .ok text) :
    ∃ header, Header.parse text = some header ∧
      List.Forall₂ (fun set structs => structs.states.name = Header.statesStruct style set.name ∧
          ∃ reads, structs.ReadsStates style set reads)
        manifest.actionSets header.sets := by
  refine header_parse (fun set _ plan hplan => ?_) h
  have hset : plan.set = set := (Plan.ofActionSet_eq_ok hplan).1
  subst hset
  exact ⟨rfl, _, Header.readsStates_ofPlan hplan⟩

/-- An input that is read as a whole, one that is bound under the right hand first, one that is
not bound, and an output. -/
theorem Manifest.header_readsStates_mixed :
    ∃ (manifest : Manifest) (text : String) (header : Header) (set : ActionSet)
        (structs : Header.SetStructs) (reads : List (List Subaction)),
      manifest.actionSets = [set] ∧ manifest.header .camel = .ok text ∧
      Header.parse text = some header ∧ header.sets = [structs] ∧
      structs.ReadsStates .camel set reads ∧
      reads = [[.whole], [.hand .right, .hand .left], [], []] := by
  let suggested : ProfileBindings := ⟨"/interaction_profiles/any",
    ⟨[("grab", ["/user/hand/right/input/x", "/user/hand/left/input/x"]),
      ("jump", ["/user/hand/left/input/a"]), ("buzz", ["/user/hand/left/output/haptic"])],
      by decide⟩⟩
  let set : ActionSet := ⟨"play", "Play", 0,
    [⟨"jump", "Jump", .boolean, false⟩, ⟨"grab", "Grab", .float, true⟩,
      ⟨"idle", "Idle", .pose, true⟩, ⟨"buzz", "Buzz", .haptic, true⟩], [suggested]⟩
  have hplan : ∃ plan, Plan.ofActionSet set = .ok plan := ⟨_, rfl⟩
  obtain ⟨plan, hplan⟩ := hplan
  obtain ⟨text, hheader⟩ := exists_header_singleton .camel hplan
  obtain ⟨header, hparse, hsets⟩ := header_readsStates hheader
  obtain ⟨structs, hstructs, hall⟩ := forall₂_singleton_left_iff.1 hsets
  obtain ⟨-, reads, hreads⟩ := hstructs
  refine ⟨⟨[set]⟩, text, header, set, structs, reads, rfl, hheader, hparse, hall, hreads, ?_⟩
  obtain ⟨jump, _, hjump, hthree, rfl⟩ := List.forall₂_cons_left_iff.1 hreads.subactions
  obtain ⟨grab, _, hgrab, htwo, rfl⟩ := List.forall₂_cons_left_iff.1 hthree
  obtain ⟨idle, _, hidle, hone, rfl⟩ := List.forall₂_cons_left_iff.1 htwo
  obtain ⟨buzz, hbuzz, rfl⟩ := forall₂_singleton_left_iff.1 hone
  -- each action falls under another clause
  have hjump' : jump = [.whole] := hjump.whole (by decide) rfl
  have hgrab' : grab = [.hand .right, .hand .left] :=
    (Except.ok.inj ((hgrab.derived (by decide)).symm.trans rfl))
  have hidle' : idle = [] := (Except.ok.inj ((hidle.derived (by decide)).symm.trans rfl))
  have hbuzz' : buzz = [] := hbuzz.haptic rfl
  rw [hjump', hgrab', hidle', hbuzz']

end XrManifest
