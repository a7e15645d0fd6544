import XrManifest.Json.Writing
import XrManifest.Manifest.Basic

/-!
# Writing manifests

A manifest is written as JSON text that reads back as the same manifest. Only
manifests without suggested bindings can be written: there is no text for an
object whose keys are the names of actions.
-/

namespace XrManifest

/-- A manifest with suggested bindings cannot be written. -/
inductive WriteError where
  | suggestedBindings
deriving DecidableEq, Repr

def WriteError.message : WriteError → String
  | suggestedBindings => "Unimplemented operation: serializing suggested bindings"

def Action.toJson (action : Action) : Json :=
  .object [("name", .string action.name), ("localizedName", .string action.localizedName),
    ("type", .string action.type.name), ("useSubactionPaths", .boolean action.perHand)]

def ActionSet.toJson (set : ActionSet) : Except WriteError Json :=
  if set.profiles.isEmpty then
    .ok (.object [("name", .string set.name), ("localizedName", .string set.localizedName),
      ("priority", .number (.integer set.priority.toInt)),
      ("actions", .array (set.actions.map Action.toJson)), ("suggestedBindings", .array [])])
  else .error .suggestedBindings

namespace Manifest

def toJson (manifest : Manifest) : Except WriteError Json := do
  let sets ← manifest.actionSets.mapM ActionSet.toJson
  return .object [("actionSets", .array sets)]

/-- The text of a manifest. -/
def write (manifest : Manifest) : Except WriteError String := do
  return (← manifest.toJson).write

end Manifest
end XrManifest
