import XrManifest.Header.Generation
import XrManifest.Proofs.Plan

/-!
# Headers and their action sets

A header has the structs of each action set, from the plan of the set. The main statement
is `header_plans`: what holds of the structs from every plan holds of all structs of a
header.
-/

namespace XrManifest

open XrManifest.Naming

variable {style : Style} {manifest : Manifest}

/-- A header has the structs from the plans of its action sets. -/
theorem Header.ofManifest_eq_ok {header : Header} :
    Header.ofManifest style manifest = .ok header ↔
      ∃ plans, manifest.actionSets.mapM Plan.ofActionSet = .ok plans ∧
        header.sets = plans.map (SetStructs.ofPlan style) := by
  constructor
  · intro h
    obtain ⟨plans, hplans, hheader⟩ := bind_eq_ok.1 h
    rcases Except.ok.inj hheader with rfl
    exact ⟨plans, hplans, rfl⟩
  · rintro ⟨plans, hplans, hsets⟩
    refine bind_eq_ok.2 ⟨plans, hplans, ?_⟩
    rw [← hsets]
    rfl

theorem Manifest.header_eq_ok {text : String} :
    manifest.header style = .ok text ↔
      ∃ header, Header.ofManifest style manifest = .ok header ∧ header.text = text := by
  constructor
  · intro h
    obtain ⟨header, hheader, htext⟩ := bind_eq_ok.1 h
    exact ⟨header, hheader, Except.ok.inj htext⟩
  · rintro ⟨header, hheader, rfl⟩
    exact bind_eq_ok.2 ⟨header, hheader, rfl⟩

/-- A text has the header of the manifest that it writes. -/
theorem generate_eq_ok {text out : String} :
    generate style text = .ok out ↔
      ∃ manifest, Manifest.read text = .ok manifest ∧ manifest.header style = .ok out := by
  refine bind_eq_ok.trans (exists_congr fun manifest => ?_)
  rw [mapError_eq_ok, mapError_eq_ok]

/-- A manifest with one action set has a header when the set has a plan. -/
theorem Manifest.exists_header_singleton (style : Style) {set : ActionSet} {plan : Plan}
    (h : Plan.ofActionSet set = .ok plan) :
    ∃ text, Manifest.header style ⟨[set]⟩ = .ok text := by
  have hheader : Header.ofManifest style ⟨[set]⟩ = .ok ⟨[.ofPlan style plan]⟩ :=
    Header.ofManifest_eq_ok.2 ⟨[plan], mapM_eq_ok.2 (.cons h .nil), rfl⟩
  exact ⟨_, header_eq_ok.2 ⟨_, hheader, rfl⟩⟩

/-- What holds of each action set and the structs from its plan holds of the action sets of
a manifest and the structs of its header, in order. -/
theorem Manifest.header_plans {text : String} {P : ActionSet → Header.SetStructs → Prop}
    (hstructs : ∀ set ∈ manifest.actionSets, ∀ plan, Plan.ofActionSet set = .ok plan →
      P set (.ofPlan style plan))
    (h : manifest.header style = .ok text) :
    ∃ header, Header.ofManifest style manifest = .ok header ∧ header.text = text ∧
      List.Forall₂ P manifest.actionSets header.sets := by
  obtain ⟨header, hheader, htext⟩ := header_eq_ok.1 h
  refine ⟨header, hheader, htext, ?_⟩
  obtain ⟨plans, hplans, hsets⟩ := Header.ofManifest_eq_ok.1 hheader
  rw [hsets, List.forall₂_map_right_iff]
  apply forall₂_imp_of_mem (mapM_eq_ok.1 hplans)
  intro set hset plan _ hplan
  exact hstructs set hset plan hplan

end XrManifest
