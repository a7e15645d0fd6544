import XrManifest.Hand
import XrManifest.Manifest.Basic

/-!
# What an action set needs

A manifest only implies which hands an action is used with and which binding
paths a set mentions. `Plan.ofActionSet` works this out for a set, and refuses a
set that binds one of its actions outside both hands. Everything written for the
set follows from its plan, and nothing can fail after it.
-/

namespace XrManifest

/-- The members of a list in the order in which they come first. -/
def firstOccurrences {α : Type} [DecidableEq α] : List α → List α
  | [] => []
  | a :: rest => a :: (firstOccurrences rest).filter (· ≠ a)

namespace ActionSet

/-- The hands an action is bound to, in the order of its first binding to each. -/
def handsOf (set : ActionSet) (action : String) : Except UnsupportedPath (List Hand) := do
  return firstOccurrences (← (set.pathsOf action).mapM Hand.ofPath)

/-- What the state of an action is read for. With `collapsed`, an action that is
not read for each hand apart is read as a whole, whatever it is bound to. -/
def subactionsOf (set : ActionSet) (action : Action) (collapsed : Bool) :
    Except UnsupportedPath (List Subaction) := do
  if collapsed && !action.perHand then return [.whole]
  else return (← set.handsOf action.name).map Subaction.hand

/-- The hands that any action of the set is bound to, in the order of the actions. -/
def usedHands (set : ActionSet) : Except UnsupportedPath (List Hand) := do
  let hands ← set.actions.mapM fun action => set.handsOf action.name
  return firstOccurrences hands.flatten

/-- Every binding path of the set once, in the order of its bytes. -/
def distinctPaths (set : ActionSet) : List String :=
  (firstOccurrences set.allPaths).mergeSort fun a b => a ≤ b

end ActionSet

/-- What an action needs: the hands it is bound to, and what its state is read for. -/
structure ActionPlan where
  action : Action
  hands : List Hand
  subactions : List Subaction
deriving DecidableEq

namespace ActionPlan

def ofAction (set : ActionSet) (action : Action) : Except UnsupportedPath ActionPlan := do
  let hands ← set.handsOf action.name
  let subactions ← set.subactionsOf action true
  return { action, hands, subactions }

/-- Whether there is a state to read. -/
def isInput (plan : ActionPlan) : Bool := !plan.action.type.isOutput

end ActionPlan

/-- What an action set needs: the plans of its actions, the hands they are bound
to, and its binding paths. -/
structure Plan where
  set : ActionSet
  actions : List ActionPlan
  hands : List Hand
  paths : List String
deriving DecidableEq

namespace Plan

def ofActionSet (set : ActionSet) : Except UnsupportedPath Plan := do
  let actions ← set.actions.mapM (ActionPlan.ofAction set)
  let hands ← set.usedHands
  return { set, actions, hands, paths := set.distinctPaths }

/-- The actions that have a state to read. -/
def inputs (plan : Plan) : List ActionPlan := plan.actions.filter ActionPlan.isInput

end Plan
end XrManifest
