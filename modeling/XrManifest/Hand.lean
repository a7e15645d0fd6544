/-!
# Hands

An input of a controller belongs to the hand that holds it. A binding path names
the input and starts with the user path of the hand; an action can be read for
one hand at a time, which OpenXR calls a subaction.
-/

namespace XrManifest

/-- The hands whose inputs an action can be bound to. -/
inductive Hand where
  | left
  | right
deriving DecidableEq, Repr

/-- A binding path that belongs to neither hand. -/
structure UnsupportedPath where
  path : String
deriving DecidableEq, Repr

def UnsupportedPath.message (error : UnsupportedPath) : String :=
  "Unsupported subaction path in binding `" ++ error.path ++ "`"

namespace Hand

def all : List Hand := [left, right]

def userPath : Hand → String
  | left => "/user/hand/left"
  | right => "/user/hand/right"

/-- The part of an identifier that names a hand. -/
def label : Hand → String
  | left => "LeftHand"
  | right => "RightHand"

/-- Whether a binding path goes on behind the user path of a hand. -/
def owns (hand : Hand) (path : String) : Bool :=
  (hand.userPath.toList ++ ['/']).isPrefixOf path.toList

/-- The hand that a binding path belongs to. -/
def ofPath (path : String) : Except UnsupportedPath Hand :=
  match all.find? (·.owns path) with
  | some hand => .ok hand
  | none => .error ⟨path⟩

end Hand

/-- What the state of an action is read for: the action as a whole, or one hand. -/
inductive Subaction where
  | whole
  | hand (hand : Hand)
deriving DecidableEq, Repr

/-- The part of an identifier that names a subaction. -/
def Subaction.label : Subaction → String
  | whole => ""
  | hand h => h.label

end XrManifest
