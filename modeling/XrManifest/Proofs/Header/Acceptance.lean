import XrManifest.Proofs.BoundPaths
import XrManifest.Proofs.Header.Generation

/-!
# Manifests that have a header

A manifest has a header when every path that is bound to an action of its set is below one
of the two hands. A path that is suggested for anything else is not looked at. The main
statement is `Manifest.header_accepts`.
-/

namespace XrManifest

open XrManifest.Naming

/-! ## Paths below a hand -/

/-- The path goes on behind the user path of a hand and a slash. -/
def UnderHand (path : String) : Prop :=
  "/user/hand/left/".toList <+: path.toList ∨ "/user/hand/right/".toList <+: path.toList

instance (path : String) : Decidable (UnderHand path) := by
  unfold UnderHand
  infer_instance

/-- A path is under a hand exactly when one owns it. -/
theorem underHand_iff {path : String} :
    UnderHand path ↔ ∃ hand : Hand, hand.owns path = true := by
  have hleft : "/user/hand/left/".toList = Hand.left.userPath.toList ++ ['/'] := by decide +kernel
  have hright : "/user/hand/right/".toList = Hand.right.userPath.toList ++ ['/'] := by
    decide +kernel
  unfold UnderHand Hand.owns
  simp only [List.isPrefixOf_iff_prefix]
  rw [hleft, hright]
  constructor
  · rintro (h | h)
    · exact ⟨.left, h⟩
    · exact ⟨.right, h⟩
  · rintro ⟨hand, h⟩
    cases hand with
    | left => exact .inl h
    | right => exact .inr h

/-- The path is bound to an action of the set. -/
def ActionSet.BindsDeclared (set : ActionSet) (path : String) : Prop :=
  ∃ action ∈ set.actions, set.Binds action.name path

/-- Where all bindings are for actions of the set, every binding path is bound to one. -/
theorem ActionSet.bindsDeclared_of_mem_allPaths {set : ActionSet}
    (hdeclared : ∀ suggested ∈ set.profiles, ∀ name ∈ suggested.bindings.actions,
      name ∈ set.actions.map Action.name)
    {path : String} (h : path ∈ set.allPaths) : set.BindsDeclared path := by
  obtain ⟨suggested, hsuggested, hpath⟩ := List.mem_flatMap.1 h
  obtain ⟨entry, hentry, hmem⟩ := List.mem_flatMap.1 hpath
  have hpair : (entry.1, path) ∈ suggested.bindings.pairs :=
    List.mem_flatMap.2 ⟨entry, hentry, List.mem_map.2 ⟨path, hmem, rfl⟩⟩
  have hname := hdeclared suggested hsuggested entry.1 (Bindings.mem_actions_of_pair hpair)
  obtain ⟨action, haction, hsame⟩ := List.mem_map.1 hname
  refine ⟨action, haction, suggested, hsuggested, ?_⟩
  rw [hsame]
  exact hpair

/-! ## Plans -/

section
variable {set : ActionSet} {error : UnsupportedPath}

theorem ActionPlan.ofAction_eq_error {action : Action}
    (h : ActionPlan.ofAction set action = .error error) :
    set.handsOf action.name = .error error := by
  rcases bind_eq_error.1 h with hhands | ⟨hands, -, hrest⟩
  · exact hhands
  rcases bind_eq_error.1 hrest with hsubactions | ⟨subactions, -, hpure⟩
  · unfold ActionSet.subactionsOf at hsubactions
    split at hsubactions
    · cases hsubactions
    · rcases bind_eq_error.1 hsubactions with hhands | ⟨hands, -, hpure⟩
      · exact hhands
      · cases hpure
  · cases hpure

/-- A set has no plan when the hands of one of its actions are not known. -/
theorem Plan.ofActionSet_eq_error (h : Plan.ofActionSet set = .error error) :
    ∃ action ∈ set.actions, set.handsOf action.name = .error error := by
  rcases bind_eq_error.1 h with hactions | ⟨actions, -, hrest⟩
  · obtain ⟨action, haction, hfailure⟩ := exists_failure_of_mapM hactions
    exact ⟨action, haction, ActionPlan.ofAction_eq_error hfailure⟩
  rcases bind_eq_error.1 hrest with hused | ⟨hands, -, hpure⟩
  · rcases bind_eq_error.1 hused with hhands | ⟨found, -, hpure⟩
    · exact exists_failure_of_mapM hhands
    · cases hpure
  · cases hpure

/-- What is reported is a path that is bound to an action of the set and below no hand. -/
theorem Plan.reported_path (h : Plan.ofActionSet set = .error error) :
    set.BindsDeclared error.path ∧ ¬ UnderHand error.path := by
  obtain ⟨action, haction, hhands⟩ := Plan.ofActionSet_eq_error h
  obtain ⟨hbinds, hnone⟩ := ActionSet.handsOf_eq_error hhands
  refine ⟨⟨action, haction, hbinds⟩, ?_⟩
  intro hunder
  obtain ⟨hand, howns⟩ := underHand_iff.1 hunder
  rw [hnone hand] at howns
  cases howns

/-- A set with a plan binds its actions to paths below the hands only. -/
theorem Plan.underHand_of_ofActionSet {plan : Plan} (h : Plan.ofActionSet set = .ok plan)
    {path : String} (hpath : set.BindsDeclared path) : UnderHand path := by
  obtain ⟨action, haction, hbinds⟩ := hpath
  obtain ⟨part, -, hpart⟩ := exists_result_of_mapM (Plan.ofActionSet_eq_ok h).2.1 haction
  have hhands := (ActionPlan.ofAction_eq_ok hpart).2.1
  exact underHand_iff.2 (ActionSet.owned_of_handsOf hhands hbinds)

end

/-! ## Headers -/

section
variable {style : Style} {manifest : Manifest}

theorem Manifest.plans_of_header {text : String} (h : manifest.header style = .ok text) :
    ∀ set ∈ manifest.actionSets, ∃ plan, Plan.ofActionSet set = .ok plan := by
  intro set hset
  obtain ⟨header, hheader, -⟩ := header_eq_ok.1 h
  obtain ⟨plans, hplans, -⟩ := Header.ofManifest_eq_ok.1 hheader
  obtain ⟨plan, -, hplan⟩ := exists_result_of_mapM hplans hset
  exact ⟨plan, hplan⟩

/-- A manifest has no header because one of its action sets has no plan. -/
theorem Manifest.header_eq_error {error : UnsupportedPath}
    (h : manifest.header style = .error error) :
    ∃ set ∈ manifest.actionSets, Plan.ofActionSet set = .error error := by
  rcases bind_eq_error.1 h with hheader | ⟨header, -, hpure⟩
  · rcases bind_eq_error.1 hheader with hplans | ⟨plans, -, hpure⟩
    · exact exists_failure_of_mapM hplans
    · cases hpure
  · cases hpure

/-- A path that is reported is bound to an action of its set and below no hand. -/
theorem Manifest.reported_path {error : UnsupportedPath}
    (h : manifest.header style = .error error) :
    ∃ set ∈ manifest.actionSets, set.BindsDeclared error.path ∧ ¬ UnderHand error.path := by
  obtain ⟨set, hset, herror⟩ := header_eq_error h
  exact ⟨set, hset, Plan.reported_path herror⟩

/-- A manifest has a header exactly when every path that is bound to an action of its sets is under
a hand. -/
theorem Manifest.exists_header_iff :
    (∃ text, manifest.header style = .ok text) ↔
      ∀ set ∈ manifest.actionSets, ∀ path, set.BindsDeclared path → UnderHand path := by
  constructor
  · rintro ⟨text, h⟩ set hset path hpath
    obtain ⟨plan, hplan⟩ := plans_of_header h set hset
    exact Plan.underHand_of_ofActionSet hplan hpath
  · intro hunder
    cases hheader : manifest.header style with
    | ok text => exact ⟨text, rfl⟩
    | error error =>
      obtain ⟨set, hset, hpath, hnot⟩ := reported_path hheader
      exact absurd (hunder set hset _ hpath) hnot

end

/-- A manifest has a header exactly when all paths that are bound to actions of their set
are below a hand, and otherwise one of the others is reported. Where all bindings are for
actions of their set, this goes for every binding path. -/
theorem Manifest.header_accepts (style : Style) (manifest : Manifest) :
    ((∃ text, manifest.header style = .ok text) ↔
      ∀ set ∈ manifest.actionSets, ∀ path, set.BindsDeclared path → UnderHand path) ∧
    (∀ error, manifest.header style = .error error →
      ∃ set ∈ manifest.actionSets, set.BindsDeclared error.path ∧ ¬ UnderHand error.path) ∧
    ((∀ set ∈ manifest.actionSets, ∀ suggested ∈ set.profiles,
        ∀ name ∈ suggested.bindings.actions, name ∈ set.actions.map Action.name) →
      ((∃ text, manifest.header style = .ok text) ↔
        ∀ set ∈ manifest.actionSets, ∀ path ∈ set.allPaths, UnderHand path)) := by
  refine ⟨exists_header_iff, fun error h => reported_path h, ?_⟩
  -- where all bindings are for actions of the set, their paths are all paths of the set
  intro hdeclared
  rw [exists_header_iff]
  constructor
  · intro h set hset path hpath
    have hbinds := ActionSet.bindsDeclared_of_mem_allPaths (hdeclared set hset) hpath
    exact h set hset path hbinds
  · intro h set hset path hpath
    obtain ⟨action, -, hbinds⟩ := hpath
    exact h set hset path hbinds.mem_allPaths

/-- A path that is suggested for no action of the set may be anything: a set without actions
that suggests a path of the head has a header. -/
theorem Manifest.not_header_requires_hands :
    ¬ ∀ (style : Style) (manifest : Manifest),
      (∃ text, manifest.header style = .ok text) ↔
        ∀ set ∈ manifest.actionSets, ∀ path ∈ set.allPaths, UnderHand path := by
  intro hclaim
  let suggested : ProfileBindings := ⟨"/interaction_profiles/any",
    ⟨[("look", ["/user/head/input/system/click"])], by decide⟩⟩
  let set : ActionSet := ⟨"play", "Play", 0, [], [suggested]⟩
  have hplan : ∃ plan, Plan.ofActionSet set = .ok plan := ⟨_, rfl⟩
  obtain ⟨plan, hplan⟩ := hplan
  have hheader := exists_header_singleton .pascal hplan
  have hunder := (hclaim .pascal ⟨[set]⟩).1 hheader set List.mem_cons_self
    "/user/head/input/system/click" (by decide)
  revert hunder
  decide +kernel

end XrManifest
