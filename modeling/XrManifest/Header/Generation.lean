import XrManifest.Cpp.Printing
import XrManifest.Header.Handles
import XrManifest.Header.States
import XrManifest.Header.Tables
import XrManifest.Manifest.Reading

/-!
# Headers of manifests

A header has three structs for each action set of a manifest. It depends on
nothing but the manifest and the naming style.
-/

namespace XrManifest

open XrManifest.Cpp XrManifest.Naming

/-- The structs of an action set. -/
structure Header.SetStructs where
  handles : Struct
  states : Struct
  tables : Struct
deriving DecidableEq

structure Header where
  sets : List Header.SetStructs
deriving DecidableEq

namespace Header

namespace SetStructs

/-- The structs of an action set, from its plan. -/
def ofPlan (style : Style) (plan : Plan) : SetStructs where
  handles := Header.handles style plan
  states := Header.states style plan
  tables := Header.tables style plan

/-- The structs in the order in which they are written. -/
def toList (structs : SetStructs) : List Struct := [structs.handles, structs.states, structs.tables]

/-- The layout of the structs, each below an empty line. -/
def layout (structs : SetStructs) : Layout :=
  .stack (structs.toList.map fun struct => .blank ++ struct.layout)

end SetStructs

/-- The header of a manifest. -/
def ofManifest (style : Style) (manifest : Manifest) : Except UnsupportedPath Header := do
  let plans ← manifest.actionSets.mapM Plan.ofActionSet
  return ⟨plans.map (SetStructs.ofPlan style)⟩

/-- The layout of a header. -/
def layout (header : Header) : Layout :=
  .line "#pragma once" ++ .blank ++ .stack (header.sets.map SetStructs.layout)

def text (header : Header) : String := header.layout.render

end Header

/-- Why a text has no header. -/
inductive GenerateError where
  | unreadable (error : ReadError)
  | unsupported (error : UnsupportedPath)
deriving DecidableEq, Repr

def GenerateError.message : GenerateError → String
  | unreadable error => error.message
  | unsupported error => error.message

/-- The text of the header of a manifest. -/
def Manifest.header (style : Style) (manifest : Manifest) : Except UnsupportedPath String := do
  return (← Header.ofManifest style manifest).text

/-- The text of the header of the manifest that a relaxed JSON text writes. -/
def generate (style : Style) (text : String) : Except GenerateError String := do
  let manifest ← (Manifest.read text).mapError GenerateError.unreadable
  (manifest.header style).mapError GenerateError.unsupported

end XrManifest
