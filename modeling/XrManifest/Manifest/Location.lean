/-!
# Places in a manifest

Where a value stands in the document of a manifest: the properties and array
indices that lead to it from the root.
-/

namespace XrManifest

/-- One step down: to a property of an object, or to an element of an array. -/
inductive Location.Step where
  | property (name : String)
  | element (index : Nat)
deriving DecidableEq, Repr

/-- The steps that lead from the root to a value. -/
abbrev Location := List Location.Step

namespace Location

/-- How a step is written behind another. -/
def Step.describe : Step → String
  | property name => "." ++ name
  | element index => s!"[{index}]"

/-- How a location is written: the root is `$`, which is left out in front of a
property. -/
def describe : Location → String
  | .property name :: rest => name ++ String.join (rest.map Step.describe)
  | steps => "$" ++ String.join (steps.map Step.describe)

end Location
end XrManifest
