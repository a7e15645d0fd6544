import XrManifest.Header.Calls
import XrManifest.Header.Identifiers
import XrManifest.OpenXr
import XrManifest.Plan

/-!
# The struct that holds the states of actions

It holds a state for each input and each subaction the input is read for, and
fetches them all at once. Where inputs are read for each hand apart, it also gives
the states of one hand.
-/

namespace XrManifest.Header

open XrManifest.Cpp XrManifest.Naming

/-- The actions that have a state, each with the access to it. -/
def accessedInputs (actions : List ActionPlan) : List (ActionPlan × StateAccess) :=
  actions.filterMap fun plan => plan.action.type.stateAccess?.map fun access => (plan, access)

/-- The inputs that are read for each hand apart. -/
def perHandInputs (plan : Plan) : List ActionPlan := plan.inputs.filter (·.action.perHand)

/-- Whether there are states of one hand to give. -/
def hasHandStates (plan : Plan) : Bool := !(perHandInputs plan).isEmpty && !plan.hands.isEmpty

section
variable (style : Style)

/-- The struct of the states of one hand: a pointer for each input that is read
for each hand apart. -/
def handStates (plan : Plan) : Member :=
  .record "SubactionStates"
    (.preset "XrPath" (statesPath style) (.operand (.word "XR_NULL_PATH")) ::
      (accessedInputs (perHandInputs plan)).map fun (input, access) =>
        .preset ("const " ++ access.type ++ "*") (statePointer style input.action.name)
          (.operand (.word "nullptr")))

/-- Fetches the state of an input as it is read for a subaction. -/
def fetchState (action : Action) (access : StateAccess) (subaction : Subaction) :
    List Statement :=
  let info := "actionStateGetInfo"
  [setMember info "action" (handle (actionHandle style action.name)),
    setMember info "subactionPath" (match subaction with
      | .whole => .word "XR_NULL_PATH"
      | .hand hand => handle (handPath style hand)),
    keepResult access.getter [.word "session", .address info,
      .address (stateField style action.name subaction)]]

def updateStates (plan : Plan) : Method where
  result := some "XrResult"
  name := "UpdateActionStates"
  parameters := [sessionParameter, handlesParameter (handlesStruct style plan.set.name)]
  isConst := false
  body :=
    [.statement (.declare (.tagged "XrActionStateGetInfo" "actionStateGetInfo"
        "XR_TYPE_ACTION_STATE_GET_INFO")),
      .statement startResult] ++
    (accessedInputs plan.actions).flatMap (fun (input, access) =>
      input.subactions.flatMap fun subaction =>
        [.blank, ifSucceeded (fetchState style input.action access subaction)]) ++
    [.statement returnResult]

/-- What `SubactionStates` points to for one hand, in the order of its fields. -/
def handStatePointers (plan : Plan) (hand : Hand) : List Operand :=
  (perHandInputs plan).map fun input =>
    if Subaction.hand hand ∈ input.subactions then
      .address (stateField style input.action.name (.hand hand))
    else .word "nullptr"

/-- The branch that gives the states of one hand. -/
def handBranch (plan : Plan) (guard : Condition → Guard) (hand : Hand) : Code :=
  .branch (guard (.equal (.word "subactionPath") (handle (handPath style hand))))
    [.returns (.braces (.word "subactionPath" :: handStatePointers style plan hand))]

/-- Gives the states of the hand whose path is asked for. -/
def getHandStates (plan : Plan) : Method where
  result := some "SubactionStates"
  name := "GetSubactionStates"
  parameters :=
    [handlesParameter (handlesStruct style plan.set.name), ⟨"XrPath", "subactionPath"⟩]
  isConst := true
  body :=
    (match plan.hands with
      | [] => []
      | first :: others =>
        handBranch style plan .when first :: others.map (handBranch style plan .otherwiseWhen)) ++
    [.branch .otherwise [.returnsDefault "Unknown subaction path."]]

def stateFields (plan : Plan) : List Declaration :=
  (accessedInputs plan.actions).flatMap fun (input, access) =>
    input.subactions.map fun subaction =>
      .tagged access.type (stateField style input.action.name subaction) access.tag

/-- The struct that holds the states of an action set. -/
def states (plan : Plan) : Struct where
  name := statesStruct style plan.set.name
  members :=
    (if hasHandStates plan then [handStates style plan, .blank] else []) ++
    [.method (updateStates style plan)] ++
    (if hasHandStates plan then [.blank, .method (getHandStates style plan)] else []) ++
    (if (accessedInputs plan.actions).isEmpty then [] else [.blank]) ++
    (stateFields style plan).map .field

end
end XrManifest.Header
