import XrManifest.Manifest.Basic

/-!
# The OpenXR interface for actions

The constants, types and functions that OpenXR has for each kind of action.
-/

namespace XrManifest

/-- How the state of an input is stored and fetched: the type that stores it, the
constant that marks that type, and the function that fetches it. -/
structure StateAccess where
  type : String
  tag : String
  getter : String
deriving DecidableEq, Repr

namespace ActionType

/-- The constant for a kind of action. -/
def constant : ActionType → String
  | boolean => "XR_ACTION_TYPE_BOOLEAN_INPUT"
  | pose => "XR_ACTION_TYPE_POSE_INPUT"
  | haptic => "XR_ACTION_TYPE_VIBRATION_OUTPUT"
  | float => "XR_ACTION_TYPE_FLOAT_INPUT"
  | vector2 => "XR_ACTION_TYPE_VECTOR2F_INPUT"

/-- The access to the state of a kind of action, where it has a state. -/
def stateAccess? : ActionType → Option StateAccess
  | boolean => some ⟨"XrActionStateBoolean", "XR_TYPE_ACTION_STATE_BOOLEAN",
      "xrGetActionStateBoolean"⟩
  | pose => some ⟨"XrActionStatePose", "XR_TYPE_ACTION_STATE_POSE", "xrGetActionStatePose"⟩
  | float => some ⟨"XrActionStateFloat", "XR_TYPE_ACTION_STATE_FLOAT", "xrGetActionStateFloat"⟩
  | vector2 => some ⟨"XrActionStateVector2f", "XR_TYPE_ACTION_STATE_VECTOR2F",
      "xrGetActionStateVector2f"⟩
  | haptic => none

end ActionType
end XrManifest
