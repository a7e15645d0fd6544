import XrManifest.Text.CaseFolding

/-!
# Action manifests

A manifest declares action sets. A set has actions, and for each interaction
profile, which is a kind of controller, the binding paths suggested for them.
-/

namespace XrManifest

/-! ## Actions -/

/-- The kinds of action. All but `haptic` are inputs. -/
inductive ActionType where
  | boolean
  | pose
  | haptic
  | float
  | vector2
deriving DecidableEq, Repr

namespace ActionType

def all : List ActionType := [boolean, pose, haptic, float, vector2]

def name : ActionType → String
  | boolean => "Boolean"
  | pose => "Pose"
  | haptic => "Haptic"
  | float => "Float"
  | vector2 => "Vector2f"

/-- The spellings of the kinds of action: their names, and one name more. -/
def table : List (String × ActionType) :=
  all.map (fun type => (type.name, type)) ++ [("Vector2", vector2)]

/-- The kind of action that a text spells, in any case. -/
def ofName? (text : String) : Option ActionType := Text.findFolded? table text

/-- Whether actions of this kind are sent to the device instead of read from it. -/
def isOutput (type : ActionType) : Bool := type = haptic

end ActionType

/-- An action: its name in code, the name shown to users, its kind, and whether it
is read for each hand apart. -/
structure Action where
  name : String
  localizedName : String
  type : ActionType
  perHand : Bool
deriving DecidableEq, Repr

/-! ## Suggested bindings -/

/-- The binding paths suggested for actions, in the order of the manifest. No
action has two entries. -/
structure Bindings where
  entries : List (String × List String)
  nodup_actions : (entries.map Prod.fst).Nodup
deriving DecidableEq

namespace Bindings

def empty : Bindings := ⟨[], List.nodup_nil⟩

/-- The names of the actions that have an entry. -/
def actions (b : Bindings) : List String := b.entries.map Prod.fst

/-- Adds an entry for an action that has none. -/
def insert (b : Bindings) (action : String) (paths : List String) (fresh : action ∉ b.actions) :
    Bindings where
  entries := b.entries ++ [(action, paths)]
  nodup_actions := by
    rw [List.map_append]
    refine List.nodup_append.2 ⟨b.nodup_actions, by simp, ?_⟩
    rintro a ha _ hb rfl
    rw [List.map_singleton, List.mem_singleton] at hb
    obtain rfl : a = action := hb
    exact fresh ha

/-- The paths suggested for an action. -/
def paths (b : Bindings) (action : String) : List String := (b.entries.lookup action).getD []

/-- Every action with each of its paths, in the order of the manifest. -/
def pairs (b : Bindings) : List (String × String) :=
  b.entries.flatMap fun (action, paths) => paths.map fun path => (action, path)

def count (b : Bindings) : Nat :=
  b.entries.foldl (fun total entry => total + entry.2.length) 0

end Bindings

/-- The bindings suggested for one interaction profile. -/
structure ProfileBindings where
  profile : String
  bindings : Bindings
deriving DecidableEq

/-! ## Action sets and manifests -/

/-- A set of actions that is switched on and off as one. -/
structure ActionSet where
  name : String
  localizedName : String
  priority : Int32
  actions : List Action
  profiles : List ProfileBindings
deriving DecidableEq

namespace ActionSet

/-- The binding paths suggested for an action in all profiles. -/
def pathsOf (set : ActionSet) (action : String) : List String :=
  set.profiles.flatMap fun profile => profile.bindings.paths action

/-- Every binding path of the set, whatever it is suggested for. -/
def allPaths (set : ActionSet) : List String :=
  set.profiles.flatMap fun profile => profile.bindings.entries.flatMap Prod.snd

end ActionSet

structure Manifest where
  actionSets : List ActionSet
deriving DecidableEq

end XrManifest
