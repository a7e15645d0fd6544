import Mathlib.Data.List.Nodup
import XrManifest.Plan
import XrManifest.Proofs.Outcomes

/-!
# Plans of action sets

What holds of the plan of an action set, whatever the set is. The main statement is
`Plan.derived_of_ofActionSet`: the hands and the binding paths that are mentioned anywhere
in the plan are among the hands and the paths of the plan.
-/

namespace XrManifest

/-! ## First occurrences -/

/-- Every member comes first somewhere. -/
theorem mem_firstOccurrences {α : Type} [DecidableEq α] {as : List α} {a : α} :
    a ∈ firstOccurrences as ↔ a ∈ as := by
  induction as with
  | nil => rfl
  | cons b as ih =>
    by_cases hb : a = b
    · simp [firstOccurrences, hb]
    · simp [firstOccurrences, hb, ih]

/-- No member comes first twice. -/
theorem nodup_firstOccurrences {α : Type} [DecidableEq α] (as : List α) :
    (firstOccurrences as).Nodup := by
  induction as with
  | nil => exact List.nodup_nil
  | cons b as ih =>
    rw [firstOccurrences, List.nodup_cons]
    constructor
    · simp
    · exact ih.filter _

/-! ## Binding paths -/

namespace ActionSet

variable {set : ActionSet}

/-- No path is lost when repeated ones are left out. -/
theorem mem_distinctPaths {path : String} : path ∈ set.distinctPaths ↔ path ∈ set.allPaths := by
  rw [distinctPaths, List.mem_mergeSort, mem_firstOccurrences]

theorem nodup_distinctPaths : set.distinctPaths.Nodup :=
  (List.mergeSort_perm _ _).nodup_iff.2 (nodup_firstOccurrences _)

/-- The path of every pair of a profile is a binding path of the set. -/
theorem mem_allPaths_of_pair {profile : ProfileBindings} {pair : String × String}
    (hprofile : profile ∈ set.profiles) (hpair : pair ∈ profile.bindings.pairs) :
    pair.2 ∈ set.allPaths := by
  obtain ⟨entry, hentry, hmem⟩ := List.mem_flatMap.1 hpair
  obtain ⟨path, hpath, rfl⟩ := List.mem_map.1 hmem
  exact List.mem_flatMap.2 ⟨profile, hprofile, List.mem_flatMap.2 ⟨entry, hentry, hpath⟩⟩

end ActionSet

namespace Bindings

/-- The action of every pair has an entry. -/
theorem mem_actions_of_pair {bindings : Bindings} {pair : String × String}
    (h : pair ∈ bindings.pairs) : pair.1 ∈ bindings.actions := by
  obtain ⟨entry, hentry, hmem⟩ := List.mem_flatMap.1 h
  obtain ⟨path, -, rfl⟩ := List.mem_map.1 hmem
  exact List.mem_map.2 ⟨entry, hentry, rfl⟩

/-- There is one pair for each path. -/
theorem length_pairs (bindings : Bindings) : bindings.pairs.length = bindings.count := by
  have hfold : ∀ (entries : List (String × List String)) (total : Nat),
      entries.foldl (fun total entry => total + entry.2.length) total =
        total + (entries.flatMap fun entry => entry.2.map (entry.1, ·)).length := by
    intro entries
    induction entries with
    | nil => exact fun total => rfl
    | cons entry entries ih =>
      intro total
      rw [List.foldl_cons, ih, List.flatMap_cons, List.length_append, List.length_map]
      omega
  rw [count, hfold, Nat.zero_add]
  rfl

end Bindings

/-! ## Plans -/

/-- A plan has the plans of the actions in order, and their hands. -/
theorem Plan.ofActionSet_eq_ok {set : ActionSet} {plan : Plan}
    (h : Plan.ofActionSet set = .ok plan) :
    plan.set = set ∧ set.actions.mapM (ActionPlan.ofAction set) = .ok plan.actions ∧
      set.usedHands = .ok plan.hands ∧ plan.paths = set.distinctPaths := by
  obtain ⟨actions, hactions, hrest⟩ := bind_eq_ok.1 h
  obtain ⟨hands, hhands, hplan⟩ := bind_eq_ok.1 hrest
  rcases Except.ok.inj hplan with rfl
  exact ⟨rfl, hactions, hhands, rfl⟩

/-- What the parts of a plan have to do with each other. -/
structure Plan.Derived (plan : Plan) : Prop where
  actions : plan.actions.map ActionPlan.action = plan.set.actions
  hands : ∀ action ∈ plan.actions, ∀ hand ∈ action.hands, hand ∈ plan.hands
  subactions : ∀ action ∈ plan.actions, ∀ hand, Subaction.hand hand ∈ action.subactions →
    hand ∈ action.hands
  paths : plan.paths = plan.set.distinctPaths

/-- The plan of an action has its hands and its subactions. -/
theorem ActionPlan.ofAction_eq_ok {set : ActionSet} {action : Action} {plan : ActionPlan}
    (h : ActionPlan.ofAction set action = .ok plan) :
    plan.action = action ∧ set.handsOf action.name = .ok plan.hands ∧
      set.subactionsOf action true = .ok plan.subactions := by
  obtain ⟨hands, hhands, hrest⟩ := bind_eq_ok.1 h
  obtain ⟨subactions, hsubactions, hplan⟩ := bind_eq_ok.1 hrest
  rcases Except.ok.inj hplan with rfl
  exact ⟨rfl, hhands, hsubactions⟩

/-- Each part of a plan is the plan of its action. -/
theorem Plan.ofAction_of_mem {set : ActionSet} {plan : Plan} {part : ActionPlan}
    (h : Plan.ofActionSet set = .ok plan) (hpart : part ∈ plan.actions) :
    ActionPlan.ofAction set part.action = .ok part := by
  obtain ⟨action, -, hstep⟩ := exists_step_of_mapM (Plan.ofActionSet_eq_ok h).2.1 hpart
  rwa [(ActionPlan.ofAction_eq_ok hstep).1]

/-- An action is read as a whole, or for each of its hands. -/
theorem ActionPlan.subactions_of_ofAction {set : ActionSet} {action : Action} {plan : ActionPlan}
    (h : ActionPlan.ofAction set action = .ok plan) :
    plan.subactions = if action.perHand then plan.hands.map .hand else [.whole] := by
  obtain ⟨-, hhands, hsubactions⟩ := ActionPlan.ofAction_eq_ok h
  unfold ActionSet.subactionsOf at hsubactions
  cases hperHand : action.perHand with
  | false =>
    rw [hperHand] at hsubactions
    exact (Except.ok.inj hsubactions).symm
  | true =>
    rw [hperHand] at hsubactions
    obtain ⟨same, hsame, hmap⟩ := bind_eq_ok.1 hsubactions
    -- the hands were derived twice, with the same outcome
    have hsameHands : plan.hands = same := Except.ok.inj (hhands.symm.trans hsame)
    rw [hsameHands]
    exact (Except.ok.inj hmap).symm

/-- The parts of a plan go together. -/
theorem Plan.derived_of_ofActionSet {set : ActionSet} {plan : Plan}
    (h : Plan.ofActionSet set = .ok plan) : plan.set = set ∧ plan.Derived := by
  obtain ⟨hset, hactions, hhands, hpaths⟩ := Plan.ofActionSet_eq_ok h
  obtain ⟨used, hused, hfirst⟩ := bind_eq_ok.1 hhands
  have hplanHands : firstOccurrences used.flatten = plan.hands := Except.ok.inj hfirst
  -- every plan comes from an action of the set
  have hplans := fun part (hpart : part ∈ plan.actions) => exists_step_of_mapM hactions hpart
  refine ⟨hset, ?_, ?_, ?_, hset ▸ hpaths⟩
  · rw [hset]
    exact map_of_mapM (fun _ _ hstep => (ActionPlan.ofAction_eq_ok hstep).1) hactions
  · intro part hpart hand hhand
    obtain ⟨action, haction, hstep⟩ := hplans part hpart
    obtain ⟨hands, hmem, hhands⟩ := exists_result_of_mapM hused haction
    have hsame := (ActionPlan.ofAction_eq_ok hstep).2.1
    rcases Except.ok.inj (hhands.symm.trans hsame) with rfl
    rw [← hplanHands]
    exact mem_firstOccurrences.2 (List.mem_flatten.2 ⟨_, hmem, hhand⟩)
  · intro part hpart hand hhand
    obtain ⟨action, -, hstep⟩ := hplans part hpart
    rw [ActionPlan.subactions_of_ofAction hstep] at hhand
    split at hhand
    · simpa using hhand
    · simp at hhand

end XrManifest
