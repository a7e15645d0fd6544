import XrManifest.Header.Calls
import XrManifest.Header.Identifiers
import XrManifest.Plan

/-!
# The struct that suggests bindings

It holds a table of bindings for each interaction profile, fills the tables, and
hands them to OpenXR.
-/

namespace XrManifest.Header

open XrManifest.Cpp XrManifest.Naming

section
variable (style : Style)

/-- Fills the table of a profile: each entry is an action and a binding path. -/
def fillTable (profile : ProfileBindings) : List Statement :=
  profile.bindings.pairs.mapIdx fun index (action, path) =>
    .assign (.entry (bindingTable style profile.profile) index)
      (.braces [handle (actionHandle style action), .word (bindingPath style path)])

/-- Finds the paths of the profiles and of all bindings, and fills the tables. -/
def createTables (plan : Plan) : Method where
  result := some "XrResult"
  name := "Initialize"
  parameters := [instanceParameter, handlesParameter (handlesStruct style plan.set.name)]
  isConst := false
  body :=
    [.statement startResult, .blank] ++
    plan.set.profiles.map (fun profile =>
      ifSucceeded [resolvePath profile.profile (profilePath style profile.profile)]) ++
    [.blank] ++
    plan.paths.map (fun path =>
      .statement (.declare
        (.preset "XrPath" (bindingPath style path) (.operand (.word "XR_NULL_PATH"))))) ++
    plan.paths.map (fun path => ifSucceeded [resolvePath path (bindingPath style path)]) ++
    [.blank, ifSucceeded (plan.set.profiles.flatMap (fillTable style)), .blank,
      .statement returnResult]

def suggestTable (profile : ProfileBindings) : List Statement :=
  let info := "interactionSuggestedBindings"
  [.declare (.tagged "XrInteractionProfileSuggestedBinding" info
      "XR_TYPE_INTERACTION_PROFILE_SUGGESTED_BINDING"),
    setMember info "interactionProfile" (.word (profilePath style profile.profile)),
    setMember info "suggestedBindings" (.word (bindingTable style profile.profile)),
    setMember info "countSuggestedBindings" (.word (toString profile.bindings.count)),
    keepResult "xrSuggestInteractionProfileBindings" [.word "instance", .address info]]

/-- Suggests the bindings of all profiles. -/
def suggestTables (plan : Plan) : Method where
  result := some "XrResult"
  name := "SuggestInteractionProfileBindings"
  parameters := [instanceParameter]
  isConst := false
  body :=
    [.statement startResult] ++
    plan.set.profiles.flatMap (fun profile => [.blank, ifSucceeded (suggestTable style profile)]) ++
    [.blank, .statement returnResult]

/-- The struct that suggests the bindings of an action set. -/
def tables (plan : Plan) : Struct where
  name := bindingsStruct style plan.set.name
  members :=
    [.method (createTables style plan), .blank, .method (suggestTables style plan), .blank] ++
    plan.set.profiles.map (fun profile =>
      .field (.plain "XrPath" (profilePath style profile.profile))) ++
    [.blank] ++
    plan.set.profiles.map fun profile =>
      .field (.sized "XrActionSuggestedBinding" (bindingTable style profile.profile)
        profile.bindings.count)

end
end XrManifest.Header
