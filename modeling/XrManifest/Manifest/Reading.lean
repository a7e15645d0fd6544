import XrManifest.Json.Reading
import XrManifest.Json.Relaxed
import XrManifest.Manifest.ReadError
import XrManifest.Manifest.Basic

/-!
# Reading manifests

`Manifest.read` reads relaxed JSON text, `Manifest.ofJson` a document. Properties
are found by name in any case; of several, the last counts, and those the schema
does not know are passed over. Only the object of a profile's bindings is read
entry by entry: `interactionProfile` names the profile, and every other key
names an action.
-/

namespace XrManifest

open XrManifest.Text

/-! ## Values and their places -/

/-- A value of a document and the place where it stands. -/
structure Located where
  value : Json
  location : Location

namespace Located

/-- The complaint that a value is not what is asked for. -/
def mismatch (node : Located) (expected : Expected) : ReadError :=
  .mismatch node.location expected node.value.kind

/-- The value of a property of this object. -/
def child (node : Located) (name : String) (value : Json) : Located :=
  ⟨value, node.location ++ [.property name]⟩

/-- The entries of an object, which is asked for as `expected`. -/
def entries (node : Located) (expected : Expected) :
    Except ReadError (List (String × Json)) :=
  match node.value with
  | .object entries => .ok entries
  | _ => .error (node.mismatch expected)

/-- The last entry of an object whose key is `name` in some case. -/
def lastFolded? (entries : List (String × Json)) (name : String) : Option (String × Json) :=
  (entries.filter fun entry => sameFolded entry.1 name).getLast?

/-- A property of an object, where it has one of that name. -/
def property? (node : Located) (name : String) : Except ReadError (Option Located) := do
  let entries ← node.entries .object
  return (lastFolded? entries name).map fun entry => node.child name entry.2

def property (node : Located) (name : String) : Except ReadError Located := do
  match ← node.property? name with
  | some value => return value
  | none => throw (.missing node.location name)

def elements (node : Located) : Except ReadError (List Located) :=
  match node.value with
  | .array values =>
    .ok (values.mapIdx fun index value => ⟨value, node.location ++ [.element index]⟩)
  | _ => .error (node.mismatch .array)

def string (node : Located) : Except ReadError String :=
  match node.value with
  | .string text => .ok text
  | _ => .error (node.mismatch .string)

def boolean (node : Located) : Except ReadError Bool :=
  match node.value with
  | .boolean value => .ok value
  | _ => .error (node.mismatch .boolean)

/-- The integer of a document as a number of 32 bits, where it is one. -/
def int32? : Json → Option Int32
  | .number n => do
    let value ← n.toInt64?
    if h : Int32.minValue.toInt ≤ value ∧ value ≤ Int32.maxValue.toInt then
      some (Int32.ofIntLE value h.1 h.2)
    else none
  | _ => none

/-- An integer of 32 bits. -/
def int32 (node : Located) : Except ReadError Int32 :=
  match int32? node.value with
  | some value => .ok value
  | none => .error (node.mismatch .int32)

def actionType (node : Located) : Except ReadError ActionType := do
  let text ← node.string
  match ActionType.ofName? text with
  | some type => return type
  | none => throw (.unknownActionType node.location text)

end Located

/-! ## The schema -/

def Action.ofNode (node : Located) : Except ReadError Action := do
  let name ← (← node.property "name").string
  let localizedName ← (← node.property "localizedName").string
  let type ← (← node.property "type").actionType
  let perHand ← match ← node.property? "useSubactionPaths" with
    | some value => value.boolean
    | none => pure false
  return { name, localizedName, type, perHand }

/-- The key that names the profile among the keys that name actions. -/
def ProfileBindings.profileKey : String := "interactionProfile"

/-- What has been read of the bindings of a profile. -/
structure ProfileBindings.Draft where
  profile : Option String
  bindings : Bindings

namespace ProfileBindings

def Draft.empty : Draft := ⟨none, .empty⟩

/-- The profile that an entry under its key names: none when the value is null. -/
def profileOf (node : Located) : Except ReadError (Option String) :=
  match node.value with
  | .null => .ok none
  | _ => node.string.map some

/-- The paths that an entry under the name of an action lists. -/
def pathsOf (node : Located) : Except ReadError (List String) := do
  (← node.elements).mapM Located.string

/-- Reads one more entry of the object at `node`. -/
def Draft.add (node : Located) (draft : Draft) (entry : String × Json) :
    Except ReadError Draft := do
  let (key, value) := entry
  if sameFolded key profileKey then
    let profile ← profileOf (node.child profileKey value)
    return { draft with profile }
  else
    let place := node.child key value
    let paths ← pathsOf place
    if fresh : key ∈ draft.bindings.actions then
      throw (.boundTwice place.location key)
    else
      return { draft with bindings := draft.bindings.insert key paths fresh }

/-- The bindings of a profile, once every entry of their object is read. -/
def Draft.finish (node : Located) (draft : Draft) : Except ReadError ProfileBindings :=
  match draft.profile with
  | some profile =>
    if profile = "" then .error (.missing node.location profileKey)
    else .ok ⟨profile, draft.bindings⟩
  | none => .error (.missing node.location profileKey)

/-- The bindings of a profile that an object suggests. -/
def ofNode (node : Located) : Except ReadError ProfileBindings := do
  let entries ← node.entries .bindingsObject
  let draft ← entries.foldlM (Draft.add node) Draft.empty
  draft.finish node

end ProfileBindings

def ActionSet.ofNode (node : Located) : Except ReadError ActionSet := do
  let name ← (← node.property "name").string
  let localizedName ← (← node.property "localizedName").string
  let priority ← (← node.property "priority").int32
  let actions ← (← (← node.property "actions").elements).mapM Action.ofNode
  let suggestions ← (← node.property "suggestedBindings").elements
  let profiles ← suggestions.mapM ProfileBindings.ofNode
  return { name, localizedName, priority, actions, profiles }

namespace Manifest

/-- The manifest that a document writes. -/
def ofJson (document : Json) : Except ReadError Manifest := do
  let root : Located := ⟨document, []⟩
  let actionSets ← (← (← root.property "actionSets").elements).mapM ActionSet.ofNode
  return { actionSets }

/-- The manifest that a relaxed JSON text writes. -/
def read (text : String) : Except ReadError Manifest := do
  let document ← (Json.read (Json.Relaxed.toStrict text)).mapError ReadError.notJson
  ofJson document

end Manifest
end XrManifest
