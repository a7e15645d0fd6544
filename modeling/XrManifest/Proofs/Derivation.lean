import XrManifest.Proofs.Header.Acceptance

/-!
# The derivation of plans

A plan is derived from the paths that are suggested for the actions of a set: actions as
they are declared, then profiles, then the paths of a profile. The first of these paths that
is below no hand is reported; without one, the plan has for each action the hands of its
paths in the order in which they come first. The main statement is `ActionSet.plan_exact`.
-/

namespace XrManifest

/-! ## Suggested paths -/

namespace ActionSet

variable {set : ActionSet}

/-- The paths that the profiles suggest for an action, profile by profile. -/
def suggestedFor (set : ActionSet) (action : String) : List String :=
  set.profiles.flatMap fun suggested =>
    (suggested.bindings.pairs.filter fun pair => pair.1 = action).map Prod.snd

/-- The paths that are suggested for the actions of a set, action by action. -/
def declaredPaths (set : ActionSet) : List String :=
  set.actions.flatMap fun action => set.suggestedFor action.name

/-- The paths that are suggested for an action are those that are bound to it. -/
theorem mem_suggestedFor {action path : String} :
    path ∈ set.suggestedFor action ↔ set.Binds action path := by
  simp [suggestedFor, Binds]

end ActionSet

/-- The pairs of an action are those of its entry. -/
theorem Bindings.paths_eq (bindings : Bindings) (action : String) :
    bindings.paths action =
      (bindings.pairs.filter fun pair => pair.1 = action).map Prod.snd := by
  have hentry : ∀ entry : String × List String,
      ((entry.2.map fun path => (entry.1, path)).filter fun pair => pair.1 = action).map Prod.snd =
        if entry.1 = action then entry.2 else [] := by
    intro entry
    rw [List.filter_map, List.map_map]
    by_cases hsame : entry.1 = action <;> simp [hsame, Function.comp_def]
  -- keys are unique, so the entry that is looked up is the only one
  have hnodup := bindings.nodup_actions
  unfold paths pairs
  generalize bindings.entries = entries at hnodup
  induction entries with
  | nil => rfl
  | cons entry entries ih =>
    rw [List.map_cons, List.nodup_cons] at hnodup
    rw [List.flatMap_cons, List.filter_append, List.map_append, hentry, ← ih hnodup.2,
      List.lookup_cons]
    by_cases hsame : entry.1 = action
    · -- no later entry is for this action
      have hnone : entries.lookup action = none := by
        rw [List.lookup_eq_none_iff]
        intro later hlater
        have hother : action ≠ later.1 := by
          intro heq
          apply hnodup.1
          exact List.mem_map.2 ⟨later, hlater, (hsame.trans heq).symm⟩
        simpa using hother
      simp [hsame, hnone]
    · have hother : (action == entry.1) = false := by simpa using Ne.symm hsame
      simp [hsame, hother]

/-- They are found profile by profile. -/
theorem ActionSet.pathsOf_eq (set : ActionSet) (action : String) :
    set.pathsOf action = set.suggestedFor action :=
  List.flatMap_congr fun suggested _ => suggested.bindings.paths_eq action

/-! ## The path that is reported -/

section
variable {set : ActionSet}

/-- A path fails exactly when it is under no hand. -/
theorem failure?_ofPath (path : String) :
    failure? (Hand.ofPath path) = if UnderHand path then none else some ⟨path⟩ := by
  split
  · rename_i hunder
    obtain ⟨hand, howns⟩ := underHand_iff.1 hunder
    exact failure?_eq_none.2 ⟨hand, Hand.ofPath_eq_ok.2 howns⟩
  · rename_i hnone
    apply failure?_eq_some.2
    refine Hand.ofPath_eq_error.2 ⟨rfl, fun hand => ?_⟩
    by_contra howns
    exact hnone (underHand_iff.2 ⟨hand, by simpa using howns⟩)

/-- The hands of an action are not known because of the first of its paths that is below
no hand. -/
theorem failure?_handsOf (action : String) :
    failure? (set.handsOf action) =
      ((set.suggestedFor action).find? fun path => ¬ UnderHand path).map UnsupportedPath.mk := by
  have hfound : failure? (set.handsOf action) =
      failure? ((set.pathsOf action).mapM Hand.ofPath) := failure?_bind fun hands _ => rfl
  rw [hfound, failure?_mapM, ActionSet.pathsOf_eq]
  induction set.suggestedFor action with
  | nil => rfl
  | cons path paths ih =>
    rw [List.findSome?_cons, List.find?_cons, failure?_ofPath]
    by_cases hunder : UnderHand path
    · simpa [hunder] using ih
    · simp [hunder]

/-- The first failure among the actions is at the first path that is below no hand. -/
theorem findSome?_handsOf :
    (set.actions.findSome? fun action => failure? (set.handsOf action.name)) =
      (set.declaredPaths.find? fun path => ¬ UnderHand path).map UnsupportedPath.mk := by
  rw [ActionSet.declaredPaths, List.find?_flatMap, List.map_findSome?]
  congr 1
  funext action
  exact failure?_handsOf action.name

/-- The hands of a set are found unless some path of an action is under no hand; the first is named.
-/
theorem failure?_usedHands :
    failure? set.usedHands =
      (set.declaredPaths.find? fun path => ¬ UnderHand path).map UnsupportedPath.mk := by
  have hfound : failure? set.usedHands =
      failure? (set.actions.mapM fun action => set.handsOf action.name) :=
    failure?_bind fun hands _ => rfl
  rw [hfound, failure?_mapM, findSome?_handsOf]

/-- Nothing fails in the plan of an action whose hands are known. -/
theorem failure?_ofAction (action : Action) :
    failure? (ActionPlan.ofAction set action) = failure? (set.handsOf action.name) := by
  refine failure?_bind fun hands hhands => ?_
  have hsubactions : failure? (set.subactionsOf action true) = none := by
    unfold ActionSet.subactionsOf
    split
    · rfl
    · rw [hhands]
      rfl
  exact (failure?_bind fun subactions _ => rfl).trans hsubactions

/-- A plan fails for the first path of an action that is under no hand, and for nothing else. -/
theorem failure?_ofActionSet :
    failure? (Plan.ofActionSet set) =
      (set.declaredPaths.find? fun path => ¬ UnderHand path).map UnsupportedPath.mk := by
  have hplans : failure? (set.actions.mapM (ActionPlan.ofAction set)) =
      (set.declaredPaths.find? fun path => ¬ UnderHand path).map UnsupportedPath.mk := by
    rw [failure?_mapM, ← findSome?_handsOf]
    congr 1
    funext action
    exact failure?_ofAction action
  rw [← hplans]
  refine failure?_bind fun plans hok => ?_
  -- the hands in use are known when the plans of all actions are
  have hhands : failure? set.usedHands = none := by
    rw [failure?_usedHands, ← hplans]
    exact failure?_eq_none.2 ⟨plans, hok⟩
  exact (failure?_bind fun hands _ => rfl).trans hhands

end

/-! ## First occurrences -/

/-- The list has the members for which `P` holds, each once, in the order of their places. -/
structure Enumerates {α : Type} (list : List α) (P : α → Prop) (place : α → Nat) : Prop where
  nodup : list.Nodup
  mem : ∀ a, a ∈ list ↔ P a
  order : list.Pairwise fun a b => place a < place b

/-- First occurrences stand in the order in which they come first. -/
theorem pairwise_firstOccurrences {α : Type} [DecidableEq α] (as : List α) :
    (firstOccurrences as).Pairwise fun a b => as.idxOf a < as.idxOf b := by
  induction as with
  | nil => exact .nil
  | cons c as ih =>
    rw [firstOccurrences, List.pairwise_cons]
    constructor
    · intro b hb
      have hne : c ≠ b := by
        have hb' : b ≠ c := by simpa using (List.mem_filter.1 hb).2
        exact hb'.symm
      rw [List.idxOf_cons_self, List.idxOf_cons_ne as hne]
      omega
    -- behind the first member all places are one further on
    · refine List.Pairwise.imp_of_mem ?_ (ih.filter _)
      intro a b ha hb hlt
      have hane : c ≠ a := by simpa using Ne.symm (by simpa using (List.mem_filter.1 ha).2)
      have hbne : c ≠ b := by simpa using Ne.symm (by simpa using (List.mem_filter.1 hb).2)
      rw [List.idxOf_cons_ne as hane, List.idxOf_cons_ne as hbne]
      omega

/-- The first occurrences are the members of a list, by the places where they come first. -/
theorem enumerates_firstOccurrences {α : Type} [DecidableEq α] (as : List α) :
    Enumerates (firstOccurrences as) (· ∈ as) (as.idxOf ·) :=
  ⟨nodup_firstOccurrences as, fun _ => mem_firstOccurrences, pairwise_firstOccurrences as⟩

/-! ## The hands of an action -/

section
variable {set : ActionSet} {action : String} {hands : List Hand}

/-- A hand comes first among the hands of paths where the first path that it owns is. -/
theorem idxOf_hand {paths : List String} {found : List Hand}
    (h : paths.mapM Hand.ofPath = .ok found) (hand : Hand) :
    found.idxOf hand = paths.findIdx hand.owns := by
  have hsteps := mapM_eq_ok.1 h
  clear h
  induction hsteps with
  | nil => rfl
  | @cons path first _ _ hstep _ ih =>
    have hfirst : first.owns path = true := Hand.ofPath_eq_ok.1 hstep
    rw [List.idxOf_cons, List.findIdx_cons, ih]
    -- a path that another hand owns is not the place of this one
    by_cases hsame : first = hand
    · subst hsame
      simp [hfirst]
    · have hnot : hand.owns path = false := by
        by_contra howns
        exact hsame (Hand.owns_unique hfirst (by simpa using howns))
      have htest : (first == hand) = false := by simpa using hsame
      simp [hnot, htest]

/-- The hands of an action are those that own a path suggested for it, in the order in which
such a path comes first. -/
theorem enumerates_handsOf (h : set.handsOf action = .ok hands) :
    Enumerates hands (fun hand => ∃ path ∈ set.suggestedFor action, hand.owns path = true)
      (fun hand => (set.suggestedFor action).findIdx hand.owns) := by
  obtain ⟨hnodup, hmem⟩ := ActionSet.handsOf_eq_ok h
  obtain ⟨found, hfound, hfirst⟩ := bind_eq_ok.1 h
  have hhands : firstOccurrences found = hands := Except.ok.inj hfirst
  rw [ActionSet.pathsOf_eq] at hfound
  refine ⟨hnodup, fun hand => ?_, ?_⟩
  · simp only [hmem, ActionSet.mem_suggestedFor]
  · rw [← hhands]
    refine (pairwise_firstOccurrences found).imp fun {first second} hlt => ?_
    rwa [idxOf_hand hfound, idxOf_hand hfound] at hlt

/-- The hands in use are those of the actions, in the order in which they come first. -/
theorem enumerates_usedHands {used : List (List Hand)}
    (hused : set.actions.mapM (fun action => set.handsOf action.name) = .ok used)
    (h : set.usedHands = .ok hands) :
    Enumerates hands (fun hand => ∃ list ∈ used, hand ∈ list) (used.flatten.idxOf ·) := by
  obtain ⟨same, hsame, hfirst⟩ := bind_eq_ok.1 h
  rcases Except.ok.inj (hused.symm.trans hsame) with rfl
  rcases Except.ok.inj hfirst with rfl
  obtain ⟨hnodup, hmem, horder⟩ := enumerates_firstOccurrences used.flatten
  exact ⟨hnodup, fun hand => (hmem hand).trans List.mem_flatten, horder⟩

end

/-! ## The plan -/

/-- The plan has what the set asks for and nothing else. -/
structure Plan.Exact (set : ActionSet) (plan : Plan) : Prop where
  /-- There is one part for each action. -/
  actions : plan.actions.map ActionPlan.action = set.actions
  /-- The hands of an action are those that own a path suggested for it. -/
  hands : ∀ part ∈ plan.actions,
    Enumerates part.hands
      (fun hand => ∃ path ∈ set.suggestedFor part.action.name, hand.owns path = true)
      (fun hand => (set.suggestedFor part.action.name).findIdx hand.owns)
  /-- An action is read as a whole unless it is to be read for each hand. -/
  whole : ∀ part ∈ plan.actions, part.subactions = [.whole] ↔ part.action.perHand = false
  /-- An action that is to be read for each hand is read for those of its paths. -/
  perHand : ∀ part ∈ plan.actions, part.action.perHand = true →
    part.subactions = part.hands.map .hand
  /-- The hands in use are those of the actions. -/
  used : Enumerates plan.hands (fun hand => ∃ part ∈ plan.actions, hand ∈ part.hands)
    ((plan.actions.flatMap ActionPlan.hands).idxOf ·)
  /-- No action is read for a hand that is not in use. -/
  read : ∀ part ∈ plan.actions, ∀ hand, Subaction.hand hand ∈ part.subactions →
    hand ∈ plan.hands

section
variable {set : ActionSet}

/-- The hands of the parts of a plan are those of the actions. -/
theorem Plan.handsOf_actions {parts : List ActionPlan}
    (h : set.actions.mapM (ActionPlan.ofAction set) = .ok parts) :
    set.actions.mapM (fun action => set.handsOf action.name) =
      .ok (parts.map ActionPlan.hands) := by
  rw [mapM_eq_ok] at h ⊢
  rw [List.forall₂_map_right_iff]
  exact h.imp fun _ _ hstep => (ActionPlan.ofAction_eq_ok hstep).2.1

/-- The plan of a set has the hands and subactions that its bindings ask for. -/
theorem Plan.exact_of_ofActionSet {plan : Plan} (h : Plan.ofActionSet set = .ok plan) :
    plan.Exact set := by
  obtain ⟨hset, hderived⟩ := Plan.derived_of_ofActionSet h
  obtain ⟨-, hparts, hhands, -⟩ := Plan.ofActionSet_eq_ok h
  have hstep : ∀ part ∈ plan.actions, ActionPlan.ofAction set part.action = .ok part :=
    fun part hpart => Plan.ofAction_of_mem h hpart
  have hsubactions := fun part hpart => ActionPlan.subactions_of_ofAction (hstep part hpart)
  refine ⟨hset ▸ hderived.actions, ?_, ?_, ?_, ?_, ?_⟩
  · intro part hpart
    exact enumerates_handsOf (ActionPlan.ofAction_eq_ok (hstep part hpart)).2.1
  · intro part hpart
    rw [hsubactions part hpart]
    cases part.action.perHand with
    | false => simp
    | true =>
      -- a list of hands is not the action as a whole
      cases part.hands <;> simp
  · intro part hpart hperHand
    rw [hsubactions part hpart, if_pos hperHand]
  · have hused := enumerates_usedHands (Plan.handsOf_actions hparts) hhands
    simpa only [List.mem_map, exists_exists_and_eq_and, ← List.flatMap_def] using hused
  · intro part hpart hand hread
    exact hderived.hands part hpart hand (hderived.subactions part hpart hand hread)

end

/-- A set has no plan, and its hands in use are not known, exactly when a path that is
suggested for one of its actions is below no hand, and then the first such path is reported.
The plan of any other set is exact. -/
theorem ActionSet.plan_exact (set : ActionSet) :
    (∀ error, Plan.ofActionSet set = .error error ↔
      set.declaredPaths.find? (fun path => ¬ UnderHand path) = some error.path) ∧
    (∀ error, set.usedHands = .error error ↔
      set.declaredPaths.find? (fun path => ¬ UnderHand path) = some error.path) ∧
    ((∃ plan, Plan.ofActionSet set = .ok plan) ↔ ∀ path ∈ set.declaredPaths, UnderHand path) ∧
    ((∃ hands, set.usedHands = .ok hands) ↔ ∀ path ∈ set.declaredPaths, UnderHand path) ∧
    ∀ plan, Plan.ofActionSet set = .ok plan →
      set.usedHands = .ok plan.hands ∧ plan.Exact set := by
  -- that a plan fails is said by its failure, and so is what it fails for
  have hreported : ∀ error : UnsupportedPath,
      (set.declaredPaths.find? fun path => ¬ UnderHand path).map UnsupportedPath.mk =
          some error ↔
        set.declaredPaths.find? (fun path => ¬ UnderHand path) = some error.path := by
    rintro ⟨path⟩
    simp [Option.map_eq_some_iff]
  have hnone : (set.declaredPaths.find? fun path => ¬ UnderHand path).map UnsupportedPath.mk =
      none ↔ ∀ path ∈ set.declaredPaths, UnderHand path := by
    simp [List.find?_eq_none]
  refine ⟨fun error => ?_, fun error => ?_, ?_, ?_, fun plan hplan => ?_⟩
  · rw [← failure?_eq_some, failure?_ofActionSet, hreported]
  · rw [← failure?_eq_some, failure?_usedHands, hreported]
  · rw [← failure?_eq_none, failure?_ofActionSet, hnone]
  · rw [← failure?_eq_none, failure?_usedHands, hnone]
  · exact ⟨(Plan.ofActionSet_eq_ok hplan).2.2.1, Plan.exact_of_ofActionSet hplan⟩

/-- A set whose first profile suggests a path of the right hand for one action, and whose
second suggests a path of the left hand for both. -/
theorem ActionSet.plan_exact_twoProfiles :
    ∃ (set : ActionSet) (plan : Plan), Plan.ofActionSet set = .ok plan ∧
      set.usedHands = .ok plan.hands ∧ plan.Exact set ∧ plan.hands = [.right, .left] ∧
      plan.actions.map ActionPlan.subactions = [[.hand .right, .hand .left], [.whole]] := by
  let first : ProfileBindings := ⟨"/interaction_profiles/first",
    ⟨[("grab", ["/user/hand/right/input/x"])], by decide⟩⟩
  let second : ProfileBindings := ⟨"/interaction_profiles/second",
    ⟨[("jump", ["/user/hand/left/input/a"]), ("grab", ["/user/hand/left/input/x"])],
      by decide⟩⟩
  let set : ActionSet := ⟨"play", "Play", 0,
    [⟨"grab", "Grab", .float, true⟩, ⟨"jump", "Jump", .boolean, false⟩], [first, second]⟩
  have hplan : ∃ plan, Plan.ofActionSet set = .ok plan ∧ plan.hands = [.right, .left] ∧
      plan.actions.map ActionPlan.subactions = [[.hand .right, .hand .left], [.whole]] :=
    ⟨_, rfl, rfl, rfl⟩
  obtain ⟨plan, hplan, hhands, hsubactions⟩ := hplan
  obtain ⟨hused, hexact⟩ := (plan_exact set).2.2.2.2 plan hplan
  exact ⟨set, plan, hplan, hused, hexact, hhands, hsubactions⟩

end XrManifest
