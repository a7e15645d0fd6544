import XrManifest.Proofs.Header.DistinctNames

/-!
# States of one hand

Where some input is read for each hand apart, and some hand is in use, the states of one hand
are a struct of pointers, and a method gives them: it has a branch for each hand in use. A
branch returns its states by their places, so they have to stand in the order of the pointers.
The main statement is `Manifest.header_givesHandStates`.
-/

namespace XrManifest
namespace Header

open XrManifest.Cpp XrManifest.Naming

/-! ## Reading the states of one hand off the code -/

/-- The structs inside of a struct, each with its fields. -/
def recordsOf (struct : Struct) : List (String × List Declaration) :=
  struct.members.filterMap fun
    | .record name fields => some (name, fields)
    | _ => none

/-- The methods of a struct that have this name. -/
def methodsNamed (name : String) (struct : Struct) : List Method :=
  struct.methods.filter fun method => method.name = name

/-- The inputs of a set that are read for each hand apart, in the order of the manifest. -/
def handInputs (set : ActionSet) : List Action :=
  set.actions.filter fun action => action.type ≠ .haptic && action.perHand

/-- The hands in use, each once: those that some action of the set is bound under. -/
structure HandsInUse (set : ActionSet) (hands : List Hand) : Prop where
  derived : set.usedHands = .ok hands
  nodup : hands.Nodup
  mem : ∀ hand, hand ∈ hands ↔ ∃ action ∈ set.actions, set.BindsHand action hand

/-- A pointer for the state of an action, which does not point to a state yet. -/
def PointsToState (style : Style) (action : Action) (pointer : Declaration) : Prop :=
  ∃ access, action.type.stateAccess? = some access ∧
    pointer = .preset ("const " ++ access.type ++ "*") (statePointer style action.name)
      (.operand (.word "nullptr"))

/-- What a pointer for the state of an action is initialised with for a hand. -/
structure Initialises (style : Style) (set : ActionSet) (fields : List Declaration) (hand : Hand)
    (action : Action) (pointer : Declaration) (item : Operand) : Prop where
  /-- It points nowhere when the action is not bound under the hand. -/
  unbound : item = .word "nullptr" ↔ ¬ set.BindsHand action hand
  /-- Otherwise it points to the state of the action for the hand, which is a field of the type
  that the pointer is for. -/
  bound : set.BindsHand action hand →
    item = .address (stateField style action.name (.hand hand)) ∧
      ∃ type name value tag, pointer = .preset ("const " ++ type ++ "*") name value ∧
        .tagged type (stateField style action.name (.hand hand)) tag ∈ fields

/-- How a branch starts: the first one with `if`, and each behind it with `else if`. -/
def guardAt (index : Nat) (condition : Condition) : Guard :=
  if index = 0 then .when condition else .otherwiseWhen condition

/-- A piece of code that returns the states of a hand when its path is asked for: the path, and
as many initialisers as there are pointers, each for the pointer at its place. -/
def ReturnsStates (style : Style) (set : ActionSet) (fields pointers : List Declaration)
    (place : Hand × Nat) (code : Code) : Prop :=
  ∃ items : List Operand,
    code = .branch
      (guardAt place.2 (.equal (.word "subactionPath") (handle (handPath style place.1))))
      [.returns (.braces (.word "subactionPath" :: items))] ∧
    items.length = pointers.length ∧
    ∀ (j : Nat) action pointer item, (handInputs set)[j]? = some action →
      pointers[j]? = some pointer → items[j]? = some item →
        Initialises style set fields place.1 action pointer item

/-- The states of one hand are declared and given in step. -/
structure SetStructs.GivesHandStates (structs : SetStructs) (style : Style) (set : ActionSet)
    (hands : List Hand) : Prop where
  /-- The hands are those in use. -/
  inUse : HandsInUse set hands
  /-- Without an input that is read for each hand, or without a hand in use, there is neither the
  struct nor the method. -/
  absent : (handInputs set = [] ∨ hands = []) →
    recordsOf structs.states = [] ∧ methodsNamed "GetSubactionStates" structs.states = []
  /-- Otherwise there are both. The struct has the path and a pointer for each input; the method
  has a branch for each hand, and one more in the end. -/
  present : handInputs set ≠ [] → hands ≠ [] → ∃ pointers method branches,
    recordsOf structs.states = [("SubactionStates",
      .preset "XrPath" (statesPath style) (.operand (.word "XR_NULL_PATH")) :: pointers)] ∧
    List.Forall₂ (PointsToState style) (handInputs set) pointers ∧
    methodsNamed "GetSubactionStates" structs.states = [method] ∧
    method.body = branches ++ [.branch .otherwise [.returnsDefault "Unknown subaction path."]] ∧
    List.Forall₂ (ReturnsStates style set structs.states.fields pointers) hands.zipIdx branches

section
variable {style : Style} {set : ActionSet} {plan : Plan}

/-! ## Inputs -/

/-- The inputs of a plan that are read for each hand are those of the set. -/
theorem handInputs_eq (hexact : plan.Exact set) :
    (perHandInputs plan).map ActionPlan.action = handInputs set := by
  rw [handInputs, ← hexact.actions, List.filter_map, perHandInputs, Plan.inputs,
    List.filter_filter]
  congr 2
  funext part
  simp [ActionPlan.isInput, ActionType.isOutput, Bool.and_comm]

/-- Each of them has a state. -/
theorem accessedInputs_perHand :
    (accessedInputs (perHandInputs plan)).map Prod.fst = perHandInputs plan := by
  rw [accessedInputs_fst, List.filter_eq_self]
  intro part hpart
  exact (List.mem_filter.1 (List.mem_of_mem_filter hpart)).2

/-- The hands of a plan are those in use. -/
theorem handsInUse_ofPlan (hplan : Plan.ofActionSet set = .ok plan) :
    HandsInUse set plan.hands := by
  have hexact := Plan.exact_of_ofActionSet hplan
  exact ⟨(Plan.ofActionSet_eq_ok hplan).2.2.1, hexact.used.nodup, fun hand => mem_hands hexact⟩

/-- The states of one hand are given when there are inputs and hands for it. -/
theorem hasHandStates_eq_true_iff (hexact : plan.Exact set) :
    hasHandStates plan = true ↔ handInputs set ≠ [] ∧ plan.hands ≠ [] := by
  simp [hasHandStates, ← handInputs_eq hexact]

/-! ## Pointers -/

/-- The pointers of the struct, one for each input. -/
def statePointers (style : Style) (plan : Plan) : List Declaration :=
  (accessedInputs (perHandInputs plan)).map fun (input, access) =>
    .preset ("const " ++ access.type ++ "*") (statePointer style input.action.name)
      (.operand (.word "nullptr"))

/-- There is a pointer for each input that is read for each hand. -/
theorem forall₂_statePointers (hexact : plan.Exact set) :
    List.Forall₂ (PointsToState style) (handInputs set) (statePointers style plan) := by
  rw [← handInputs_eq hexact, ← accessedInputs_perHand, statePointers, List.map_map,
    List.forall₂_map_left_iff, List.forall₂_map_right_iff, List.forall₂_same]
  intro (input, access) hinput
  exact ⟨access, (mem_accessedInputs.1 hinput).2, rfl⟩

/-! ## Branches -/

/-- The initialiser at a place is for the input at this place. -/
theorem initialises_item (hexact : plan.Exact set) {hand : Hand} {j : Nat} {action : Action}
    {pointer : Declaration} {item : Operand} (haction : (handInputs set)[j]? = some action)
    (hpointer : (statePointers style plan)[j]? = some pointer)
    (hitem : (handStatePointers style plan hand)[j]? = some item) :
    Initialises style set (states style plan).fields hand action pointer item := by
  -- all three are made of the same part of the plan
  rw [← handInputs_eq hexact, ← accessedInputs_perHand, List.map_map, List.getElem?_map] at haction
  rw [statePointers, List.getElem?_map] at hpointer
  rw [handStatePointers, ← accessedInputs_perHand, List.map_map, List.getElem?_map] at hitem
  obtain ⟨⟨input, access⟩, hfound, rfl⟩ := Option.map_eq_some_iff.1 haction
  rw [hfound] at hpointer hitem
  have hpointer' := (Option.some.inj hpointer).symm
  have hitem' := (Option.some.inj hitem).symm
  have haccessed := mem_accessedInputs.1 (List.mem_of_getElem? hfound)
  obtain ⟨hinput, hperHand⟩ := List.mem_filter.1 haccessed.1
  have hpart : input ∈ plan.actions := List.mem_of_mem_filter hinput
  have hbinds : Subaction.hand hand ∈ input.subactions ↔ set.BindsHand input.action hand := by
    rw [mem_subactions hexact hpart]
    exact and_iff_right hperHand
  by_cases hread : Subaction.hand hand ∈ input.subactions
  · have haddress : item = .address (stateField style input.action.name (.hand hand)) := by
      rw [hitem']
      exact if_pos hread
    constructor
    · rw [haddress]
      exact iff_of_false (fun h => (nomatch h)) (fun h => h (hbinds.1 hread))
    · intro _
      refine ⟨haddress, access.type, _, _, access.tag, hpointer', mem_stateFields.2 ?_⟩
      exact List.mem_flatMap.2 ⟨(input, access), mem_accessedInputs.2 ⟨hpart, haccessed.2⟩,
        List.mem_map.2 ⟨_, hread, rfl⟩⟩
  · have hnull : item = .word "nullptr" := by
      rw [hitem']
      exact if_neg hread
    constructor
    · exact iff_of_true hnull (fun h => hread (hbinds.2 h))
    · intro hbound
      exact absurd (hbinds.2 hbound) hread

/-- The branch of a hand returns its states in the order of the pointers. -/
theorem returnsStates_handBranch (hexact : plan.Exact set) (hand : Hand) (index : Nat)
    {guard : Condition → Guard} (hguard : ∀ condition, guard condition = guardAt index condition) :
    ReturnsStates style set (states style plan).fields (statePointers style plan) (hand, index)
      (handBranch style plan guard hand) := by
  refine ⟨handStatePointers style plan hand, ?_, ?_, ?_⟩
  · rw [handBranch, hguard]
  · rw [handStatePointers, statePointers, List.length_map, List.length_map,
      ← List.length_map Prod.fst, accessedInputs_perHand]
  · intro j action pointer item haction hpointer hitem
    exact initialises_item hexact haction hpointer hitem

/-- The branches of the method for the hands in use. -/
def handBranches (style : Style) (plan : Plan) : List Hand → List Code
  | [] => []
  | first :: others =>
    handBranch style plan .when first :: others.map (handBranch style plan .otherwiseWhen)

theorem body_getHandStates :
    (getHandStates style plan).body = handBranches style plan plan.hands ++
      [.branch .otherwise [.returnsDefault "Unknown subaction path."]] := by
  cases hhands : plan.hands <;> simp [getHandStates, handBranches, hhands]

/-- The first branch starts with `if`, and the others with `else if`. -/
theorem forall₂_handBranches (hexact : plan.Exact set) (hands : List Hand) :
    List.Forall₂ (ReturnsStates style set (states style plan).fields (statePointers style plan))
      hands.zipIdx (handBranches style plan hands) := by
  cases hands with
  | nil => exact .nil
  | cons first others =>
    refine .cons (returnsStates_handBranch hexact first 0 fun _ => rfl) ?_
    -- every later branch has an index that is not zero
    have hlater : ∀ start, List.Forall₂
        (ReturnsStates style set (states style plan).fields (statePointers style plan))
        (others.zipIdx (start + 1)) (others.map (handBranch style plan .otherwiseWhen)) := by
      induction others with
      | nil => exact fun start => .nil
      | cons hand others ih =>
        intro start
        exact .cons (returnsStates_handBranch hexact hand (start + 1) fun _ => rfl)
          (ih (start + 1))
    exact hlater 0

/-! ## The struct of the states -/

theorem recordsOf_states :
    recordsOf (states style plan) = if hasHandStates plan then [("SubactionStates",
      .preset "XrPath" (statesPath style) (.operand (.word "XR_NULL_PATH")) ::
        statePointers style plan)] else [] := by
  unfold states recordsOf
  cases hasHandStates plan <;> cases (accessedInputs plan.actions).isEmpty <;>
    simp [handStates, statePointers]

/-- The method is there exactly when the struct of pointers is. -/
theorem methodsNamed_states :
    methodsNamed "GetSubactionStates" (states style plan) =
      if hasHandStates plan then [getHandStates style plan] else [] := by
  have hupdate : (updateStates style plan).name ≠ "GetSubactionStates" := by
    simp [updateStates]
  have hget : (getHandStates style plan).name = "GetSubactionStates" := rfl
  unfold states methodsNamed Struct.methods
  cases hasHandStates plan <;> cases (accessedInputs plan.actions).isEmpty <;>
    simp [handStates, hupdate, hget]

/-- The code from a plan gives the states of each hand in use. -/
theorem givesHandStates_ofPlan (hplan : Plan.ofActionSet set = .ok plan) :
    (SetStructs.ofPlan style plan).GivesHandStates style set plan.hands := by
  have hexact := Plan.exact_of_ofActionSet hplan
  have hgives := hasHandStates_eq_true_iff hexact
  refine ⟨handsInUse_ofPlan hplan, ?_, ?_⟩
  · intro hnone
    have hnot : ¬ hasHandStates plan = true := by
      rw [hgives]
      rintro ⟨hinputs, hhands⟩
      exact hnone.elim hinputs hhands
    exact ⟨recordsOf_states.trans (if_neg hnot), methodsNamed_states.trans (if_neg hnot)⟩
  · intro hinputs hhands
    have hsome := hgives.2 ⟨hinputs, hhands⟩
    exact ⟨statePointers style plan, getHandStates style plan, handBranches style plan plan.hands,
      recordsOf_states.trans (if_pos hsome), forall₂_statePointers hexact,
      methodsNamed_states.trans (if_pos hsome), body_getHandStates,
      forall₂_handBranches hexact plan.hands⟩

end
end Header

/-! ## Headers -/

/-- For each action set of a manifest, the states of one hand are declared and given together,
and what is returned for a hand stands in the order of the pointers. -/
theorem Manifest.header_givesHandStates {style : Naming.Style} {manifest : Manifest}
    {text : String} (h : manifest.header style = .ok text) :
    ∃ header, Header.parse text = some header ∧
      List.Forall₂ (fun set structs => structs.states.name = Header.statesStruct style set.name ∧
          ∃ hands, structs.GivesHandStates style set hands)
        manifest.actionSets header.sets := by
  refine header_parse (fun set _ plan hplan => ?_) h
  have hset : plan.set = set := (Plan.ofActionSet_eq_ok hplan).1
  refine ⟨?_, plan.hands, Header.givesHandStates_ofPlan hplan⟩
  rw [← hset]
  rfl

/-- An input that is bound under both hands, one that is bound under the left hand only, one that
is read as a whole, and an output. -/
theorem Manifest.header_givesHandStates_twoHands :
    ∃ (manifest : Manifest) (text : String) (header : Header) (set : ActionSet)
        (structs : Header.SetStructs) (hands : List Hand),
      manifest.actionSets = [set] ∧ manifest.header .pascal = .ok text ∧
      Header.parse text = some header ∧ header.sets = [structs] ∧
      structs.GivesHandStates .pascal set hands ∧
      hands = [.right, .left] ∧
      (Header.handInputs set).map Action.name = ["grab", "point"] ∧
      (Header.recordsOf structs.states).length = 1 ∧
      (Header.methodsNamed "GetSubactionStates" structs.states).length = 1 := by
  let suggested : ProfileBindings := ⟨"/interaction_profiles/any",
    ⟨[("grab", ["/user/hand/right/input/x", "/user/hand/left/input/x"]),
      ("point", ["/user/hand/left/input/y"]), ("jump", ["/user/hand/left/input/a"]),
      ("buzz", ["/user/hand/right/output/haptic"])], by decide⟩⟩
  let set : ActionSet := ⟨"play", "Play", 0,
    [⟨"grab", "Grab", .float, true⟩, ⟨"jump", "Jump", .boolean, false⟩,
      ⟨"buzz", "Buzz", .haptic, true⟩, ⟨"point", "Point", .pose, true⟩], [suggested]⟩
  have hplan : ∃ plan, Plan.ofActionSet set = .ok plan := ⟨_, rfl⟩
  obtain ⟨plan, hplan⟩ := hplan
  obtain ⟨text, hheader⟩ := exists_header_singleton .pascal hplan
  obtain ⟨header, hparse, hsets⟩ := header_givesHandStates hheader
  obtain ⟨structs, ⟨-, hands, hgives⟩, hall⟩ := forall₂_singleton_left_iff.1 hsets
  -- the first action is bound under the right hand first
  have hused : set.usedHands = .ok [.right, .left] := rfl
  have hhands : hands = [.right, .left] := Except.ok.inj (hgives.inUse.derived.symm.trans hused)
  have hinputs : (Header.handInputs set).map Action.name = ["grab", "point"] := by decide
  obtain ⟨pointers, method, branches, hrecords, -, hmethods, -⟩ :=
    hgives.present (fun hnone => by simp [hnone] at hinputs) (by simp [hhands])
  exact ⟨⟨[set]⟩, text, header, set, structs, hands, rfl, hheader, hparse, hall, hgives, hhands,
    hinputs, by simp [hrecords], by simp [hmethods]⟩

end XrManifest
