import XrManifest.Header.Calls
import XrManifest.Header.Identifiers
import XrManifest.OpenXr
import XrManifest.Plan

/-!
# The struct that owns an action set

It holds the handles of the set and of its actions, and the paths of the hands in
use. It creates them, creates spaces for poses, and destroys the set.
-/

namespace XrManifest.Header

open XrManifest.Cpp XrManifest.Naming

section
variable (style : Style)

/-- Destroys the action set, if it was created. -/
def destructor (set : ActionSet) : Method where
  result := none
  name := "~" ++ handlesStruct style set.name
  parameters := []
  isConst := false
  body :=
    [.branch (.when (.differ (.word (setHandle style)) (.word "XR_NULL_HANDLE")))
      [.discard "xrDestroyActionSet" [.word (setHandle style)]]]

/-- Creates an action for the hands it is bound to. -/
def createAction (plan : ActionPlan) : List Statement :=
  let hands := plan.hands.map fun hand => Operand.word (handPath style hand)
  let info := "actionCreateInfo"
  (if hands.isEmpty then [] else [.declare (.listed "XrPath" "subactionPaths" hands)]) ++
  [.declare (.tagged "XrActionCreateInfo" info "XR_TYPE_ACTION_CREATE_INFO"),
    setMember info "actionType" (.word plan.action.type.constant),
    copyText info "actionName" plan.action.name,
    copyText info "localizedActionName" plan.action.localizedName] ++
  (if hands.isEmpty then []
    else [setMember info "countSubactionPaths" (.word (toString hands.length)),
      setMember info "subactionPaths" (.word "subactionPaths")]) ++
  [keepResult "xrCreateAction" [.word (setHandle style), .address info,
    .address (actionHandle style plan.action.name)]]

def createSet (set : ActionSet) : List Statement :=
  let info := "actionSetInfo"
  [.declare (.tagged "XrActionSetCreateInfo" info "XR_TYPE_ACTION_SET_CREATE_INFO"),
    copyText info "actionSetName" set.name,
    copyText info "localizedActionSetName" set.localizedName,
    setMember info "priority" (.word (toString set.priority.toInt)),
    .declare (.preset "XrResult" "result"
      (.call "xrCreateActionSet" [.word "instance", .address info,
        .address (setHandle style)]))]

/-- Creates the action set, finds the paths of the hands in use, and creates the
actions. -/
def createHandles (plan : Plan) : Method where
  result := some "XrResult"
  name := "Initialize"
  parameters := [instanceParameter]
  isConst := false
  body :=
    (createSet style plan.set).map .statement ++
    plan.hands.flatMap (fun hand =>
      [.blank, ifSucceeded [resolvePath hand.userPath (handPath style hand)]]) ++
    plan.actions.flatMap (fun action => [.blank, ifSucceeded (createAction style action)]) ++
    [.blank, .statement returnResult]

/-- Creates the space of a pose as it is read for a subaction. -/
def createSpace (action : Action) (subaction : Subaction) : Method :=
  let info := "actionSpaceInfo"
  let orientation := Operand.field (memberOf info "poseInActionSpace") "orientation"
  { result := some "XrResult"
    name := spaceCreator style action.name subaction
    parameters := [sessionParameter, ⟨"XrSpace*", "space"⟩]
    isConst := true
    body := List.map Code.statement
      ([.declare (.tagged "XrActionSpaceCreateInfo" info "XR_TYPE_ACTION_SPACE_CREATE_INFO"),
        setMember info "action" (.word (actionHandle style action.name)),
        .assign (.field orientation "w") (.operand (.word "1.0f"))] ++
      (match subaction with
        | .whole => []
        | .hand hand => [setMember info "subactionPath" (.word (handPath style hand))]) ++
      [.returns (.call "xrCreateActionSpace"
        [.word "session", .address info, .word "space"])]) }

/-- The methods that create the spaces of an action, which only poses have. -/
def createSpaces (plan : ActionPlan) : List Member :=
  if plan.action.type = .pose then
    plan.subactions.flatMap fun subaction =>
      [.blank, .method (createSpace style plan.action subaction)]
  else []

/-- The struct that owns an action set. -/
def handles (plan : Plan) : Struct where
  name := handlesStruct style plan.set.name
  members :=
    [.method (destructor style plan.set), .blank, .method (createHandles style plan)] ++
    plan.actions.flatMap (createSpaces style) ++
    [.blank, .field (.tagged "XrActionSet" (setHandle style) "XR_NULL_HANDLE"), .blank] ++
    plan.set.actions.map (fun action =>
      .field (.tagged "XrAction" (actionHandle style action.name) "XR_NULL_HANDLE")) ++
    (if plan.hands.isEmpty then [] else [.blank]) ++
    plan.hands.map fun hand => .field (.tagged "XrPath" (handPath style hand) "XR_NULL_PATH")

end
end XrManifest.Header
