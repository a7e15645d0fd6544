import XrManifest.Hand
import XrManifest.Naming.Style

/-!
# Identifiers of a header

The name of everything that a header declares, in a naming style.
-/

namespace XrManifest.Header

open XrManifest.Naming

/-! ## Fragments of names -/

/-- Removes every occurrence of `word` from a text, from the left; the first
`skip` characters belong to an occurrence already found. -/
def removeFrom (word : List Char) : (skip : Nat) → List Char → List Char
  | _, [] => []
  | skip + 1, _ :: rest => removeFrom word skip rest
  | 0, c :: rest =>
    if word.isPrefixOf (c :: rest) then removeFrom word (word.length - 1) rest
    else c :: removeFrom word 0 rest

/-- A text with `_` for every `/`. -/
def slashesJoined (text : List Char) : List Char := text.map fun c => if c = '/' then '_' else c

/-- The root of the paths of interaction profiles. -/
def profileRoot : String := "/interaction_profiles/"

/-- The fragment that names an interaction profile. -/
def profileFragment (profile : String) : String :=
  String.ofList (slashesJoined (removeFrom profileRoot.toList 0 profile.toList))

/-- The fragment that names a binding path. -/
def pathFragment (path : String) : String := String.ofList (slashesJoined path.toList)

/-- The fragment that names an action as it is read for a subaction. -/
def subactionFragment (action : String) (subaction : Subaction) : String :=
  action ++ "_" ++ subaction.label

/-! ## Identifiers -/

section
variable (style : Style)

/-- The struct that owns an action set. -/
def handlesStruct (set : String) : String := style.rename [set, "ActionSet"]

/-- The struct that holds the states of an action set. -/
def statesStruct (set : String) : String := style.rename [set, "ActionStates"]

/-- The struct that suggests the bindings of an action set. -/
def bindingsStruct (set : String) : String := style.rename [set, "SuggestedBindings"]

def setHandle : String := style.rename ["ActionSet"]

def actionHandle (action : String) : String := style.rename [action]

/-- The user path of a hand. -/
def handPath (hand : Hand) : String := style.rename [hand.label]

/-- The method that creates the space of a pose. -/
def spaceCreator (action : String) (subaction : Subaction) : String :=
  style.rename ["Create", subactionFragment action subaction, "ActionSpace"]

/-- The state of an action as it is read for a subaction. -/
def stateField (action : String) (subaction : Subaction) : String :=
  style.rename [subactionFragment action subaction, "ActionState"]

/-- The pointer to the state of an action for one hand. -/
def statePointer (action : String) : String := style.rename [action, "ActionState"]

/-- The hand that a group of states belongs to. -/
def statesPath : String := style.rename ["SubactionPath"]

/-- The path of an interaction profile. -/
def profilePath (profile : String) : String := style.rename [profileFragment profile]

/-- The bindings suggested for an interaction profile. -/
def bindingTable (profile : String) : String :=
  style.rename [profileFragment profile, "Bindings"]

def bindingPath (path : String) : String := style.rename [pathFragment path]

end
end XrManifest.Header
