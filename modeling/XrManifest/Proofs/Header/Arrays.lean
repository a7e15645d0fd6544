import XrManifest.Proofs.Header.ActionCreation
import XrManifest.Proofs.Header.TableEntries
import XrManifest.Proofs.Manifest.RoundTrip

/-!
# Arrays of a header

A header declares two kinds of arrays. An action that is bound under hands is created with a
local list of their paths, and each profile has a table that is as long as the profile has
bindings. The list is left out where it would be empty, the table is not: an array has no
elements exactly where a profile suggests no path. The main statement is `generate_arrays`.
-/

namespace XrManifest
namespace Header

open XrManifest.Cpp XrManifest.Naming

/-! ## Reading arrays off the code -/

/-- The name and the length of the array that is declared, if it is one. -/
def declaredArray? : Declaration → Option (String × Nat)
  | .sized _ name length => some (name, length)
  | .listed _ name elements => some (name, elements.length)
  | _ => none

def localArray? : Statement → Option (String × Nat)
  | .declare declaration => declaredArray? declaration
  | _ => none

def localArrays (statements : List Statement) : List (String × Nat) :=
  statements.filterMap localArray?

/-- The arrays that a member declares, also those in nested structs and in methods. -/
def memberArrays : Member → List (String × Nat)
  | .blank => []
  | .field declaration => (declaredArray? declaration).toList
  | .method method => localArrays method.statements
  | .record _ fields => fields.filterMap declaredArray?

/-- All arrays that a struct declares, in the order of their declarations. -/
def allArrays (struct : Struct) : List (String × Nat) := struct.members.flatMap memberArrays

/-- The arrays of an action set whose actions are bound under the hands `bound`. -/
structure SetStructs.DeclaresArrays (structs : SetStructs) (style : Style) (set : ActionSet)
    (bound : List (List Hand)) : Prop where
  hands : List.Forall₂ (BoundUnder set) set.actions bound
  /-- There is a list of paths for each action that is bound under a hand. -/
  lists : allArrays structs.handles =
    (bound.filter (· ≠ [])).map fun hands => ("subactionPaths", hands.length)
  states : allArrays structs.states = []
  /-- There is a table for each profile, with or without bindings. -/
  tables : allArrays structs.tables = set.profiles.map fun suggested =>
    (bindingTable style suggested.profile, suggested.bindings.pairs.length)

section
variable {style : Style} {set : ActionSet} {plan : Plan}

/-! ## Methods -/

theorem localArrays_append (first second : List Statement) :
    localArrays (first ++ second) = localArrays first ++ localArrays second :=
  List.filterMap_append

/-- Statements without a declaration of an array. -/
theorem localArrays_eq_nil {statements : List Statement}
    (h : ∀ statement ∈ statements, localArray? statement = none) : localArrays statements = [] :=
  List.filterMap_eq_nil_iff.2 h

/-- The list of paths is left out where it would be empty. -/
theorem localArrays_createAction (part : ActionPlan) :
    localArrays (createAction style part) =
      if part.hands = [] then [] else [("subactionPaths", part.hands.length)] := by
  obtain ⟨action, hands, subactions⟩ := part
  cases hands with
  | nil => rfl
  | cons first others => simp [localArrays, localArray?, declaredArray?, createAction, setMember,
      copyText, keepResult]

/-- In order, the lists are those of the actions that are bound under a hand. -/
theorem localArrays_createHandles :
    localArrays (createHandles style plan).statements =
      ((plan.actions.map ActionPlan.hands).filter (· ≠ [])).map
        fun hands => ("subactionPaths", hands.length) := by
  -- only the code for an action declares an array
  have hpreparation : localArrays (preparation style plan) = [] := by
    apply localArrays_eq_nil
    intro statement hstatement
    rcases List.mem_append.1 hstatement with hset | hpath
    · simp only [createSet, List.mem_cons, List.not_mem_nil, or_false] at hset
      rcases hset with rfl | rfl | rfl | rfl | rfl <;> rfl
    · obtain ⟨hand, -, rfl⟩ := List.mem_map.1 hpath
      rfl
  have hreturn : localArrays [returnResult] = [] := rfl
  have hactions : ∀ parts : List ActionPlan,
      localArrays (parts.flatMap (createAction style)) =
        ((parts.map ActionPlan.hands).filter (· ≠ [])).map
          fun hands => ("subactionPaths", hands.length) := by
    intro parts
    induction parts with
    | nil => rfl
    | cons part parts ih =>
      rw [List.flatMap_cons, localArrays_append, localArrays_createAction, ih]
      by_cases hnone : part.hands = []
      · simp [hnone]
      · simp [hnone]
  rw [statements_createHandles, localArrays_append, localArrays_append, hpreparation, hactions,
    hreturn, List.nil_append, List.append_nil]

theorem localArrays_createSpace (action : Action) (subaction : Subaction) :
    localArrays (createSpace style action subaction).statements = [] := by
  cases subaction <;> rfl

theorem localArrays_updateStates : localArrays (updateStates style plan).statements = [] := by
  apply localArrays_eq_nil
  intro statement hstatement
  rcases mem_updateStates.1 hstatement with (rfl | rfl) | ⟨input, -, subaction, -, hmem⟩ | rfl
  · rfl
  · rfl
  · simp only [fetchState, List.mem_cons, List.not_mem_nil, or_false] at hmem
    rcases hmem with rfl | rfl | rfl <;> rfl
  · rfl

theorem localArrays_getHandStates : localArrays (getHandStates style plan).statements = [] := by
  apply localArrays_eq_nil
  intro statement hstatement
  rcases getHandStates_statement hstatement with rfl | ⟨hand, -, rfl⟩ <;> rfl

/-- The entries of tables are assigned, and no array is declared for them. -/
theorem localArrays_createTables : localArrays (createTables style plan).statements = [] := by
  rw [createTables_statements]
  apply localArrays_eq_nil
  intro statement hstatement
  rcases List.mem_append.1 hstatement with hfind | hfill
  · rcases eq_of_mem_findPaths hfind with rfl | ⟨path, -, rfl⟩ | ⟨path, target, rfl⟩ <;> rfl
  · rcases eq_of_mem_fillTables hfill with rfl | ⟨_, -, _, -, _, rfl⟩ <;> rfl

theorem localArrays_suggestTables : localArrays (suggestTables style plan).statements = [] := by
  apply localArrays_eq_nil
  intro statement hstatement
  rcases mem_suggestTables.1 hstatement with rfl | ⟨suggested, -, hmem⟩ | rfl
  · rfl
  · simp only [suggestTable, List.mem_cons, List.not_mem_nil, or_false] at hmem
    rcases hmem with rfl | rfl | rfl | rfl | rfl <;> rfl
  · rfl

/-! ## Structs -/

/-- Members without a declaration of an array. -/
theorem memberArrays_eq_nil {members : List Member}
    (h : ∀ member ∈ members, memberArrays member = []) : members.flatMap memberArrays = [] :=
  List.flatMap_eq_nil_iff.2 h

/-- No field of the struct is an array. -/
theorem allArrays_handles :
    allArrays (handles style plan) =
      ((plan.actions.map ActionPlan.hands).filter (· ≠ [])).map
        fun hands => ("subactionPaths", hands.length) := by
  -- part by part: no array but the lists of the method
  have hstart : ([.method (destructor style plan.set), .blank,
      .method (createHandles style plan)] : List Member).flatMap memberArrays =
        localArrays (createHandles style plan).statements := by
    simp [memberArrays, localArrays, destructor, Method.statements, Code.statements, localArray?]
  have hspaces : (plan.actions.flatMap (createSpaces style)).flatMap memberArrays = [] := by
    apply memberArrays_eq_nil
    intro member hmember
    rcases eq_of_mem_createSpaces hmember with rfl | ⟨action, subaction, rfl⟩
    · rfl
    · exact localArrays_createSpace action subaction
  have hactions : (plan.set.actions.map fun action => Member.field
      (.tagged "XrAction" (actionHandle style action.name) "XR_NULL_HANDLE")).flatMap
        memberArrays = [] := by
    apply memberArrays_eq_nil
    rw [List.forall_mem_map]
    intro action _
    rfl
  have hpaths : (plan.hands.map fun hand => Member.field
      (.tagged "XrPath" (handPath style hand) "XR_NULL_PATH")).flatMap memberArrays = [] := by
    apply memberArrays_eq_nil
    rw [List.forall_mem_map]
    intro hand _
    rfl
  have hblank : (if plan.hands.isEmpty then [] else [Member.blank]).flatMap memberArrays = [] := by
    split <;> rfl
  have hset : ([.blank, .field (.tagged "XrActionSet" (setHandle style) "XR_NULL_HANDLE"),
      .blank] : List Member).flatMap memberArrays = [] := rfl
  simp only [allArrays, handles, List.flatMap_append, hstart, hspaces, hset, hactions, hblank,
    hpaths, List.append_nil]
  exact localArrays_createHandles

theorem allArrays_states : allArrays (states style plan) = [] := by
  -- part by part: the states are fields of their own
  have hrecord : memberArrays (handStates style plan) = [] := by
    refine List.filterMap_eq_nil_iff.2 fun field hfield => ?_
    rcases List.mem_cons.1 hfield with rfl | hpointer
    · rfl
    · obtain ⟨input, -, rfl⟩ := List.mem_map.1 hpointer
      rfl
  have hnested : (if hasHandStates plan then [handStates style plan, .blank] else []).flatMap
      memberArrays = [] := by
    split
    · simp only [List.flatMap_cons, hrecord]
      rfl
    · rfl
  have hupdate : ([.method (updateStates style plan)] : List Member).flatMap memberArrays = [] := by
    simp [memberArrays, localArrays_updateStates]
  have hgive : (if hasHandStates plan then [.blank, .method (getHandStates style plan)]
      else []).flatMap memberArrays = [] := by
    split
    · simp [memberArrays, localArrays_getHandStates]
    · rfl
  have hblank : (if (accessedInputs plan.actions).isEmpty then []
      else [Member.blank]).flatMap memberArrays = [] := by
    split <;> rfl
  have hfields : ((stateFields style plan).map Member.field).flatMap memberArrays = [] := by
    apply memberArrays_eq_nil
    rw [List.forall_mem_map]
    intro field hfield
    obtain ⟨input, -, hinput⟩ := List.mem_flatMap.1 hfield
    obtain ⟨subaction, -, rfl⟩ := List.mem_map.1 hinput
    rfl
  simp only [allArrays, states, List.flatMap_append, hnested, hupdate, hgive, hblank, hfields,
    List.append_nil]

/-- A table is declared for each profile, with or without bindings. -/
theorem allArrays_tables :
    allArrays (tables style plan) = plan.set.profiles.map fun suggested =>
      (bindingTable style suggested.profile, suggested.bindings.pairs.length) := by
  have hmethods : ([.method (createTables style plan), .blank,
      .method (suggestTables style plan), .blank] : List Member).flatMap memberArrays = [] := by
    simp [memberArrays, localArrays_createTables, localArrays_suggestTables]
  have hpaths : (plan.set.profiles.map fun suggested => Member.field
      (.plain "XrPath" (profilePath style suggested.profile))).flatMap memberArrays = [] := by
    apply memberArrays_eq_nil
    rw [List.forall_mem_map]
    intro suggested _
    rfl
  have htables : (plan.set.profiles.map fun suggested => Member.field
      (.sized "XrActionSuggestedBinding" (bindingTable style suggested.profile)
        suggested.bindings.count)).flatMap memberArrays =
      plan.set.profiles.map fun suggested =>
        (bindingTable style suggested.profile, suggested.bindings.pairs.length) := by
    rw [List.flatMap_map, List.map_eq_flatMap]
    refine List.flatMap_congr fun suggested _ => ?_
    rw [suggested.bindings.length_pairs]
    rfl
  have hblank : [Member.blank].flatMap memberArrays = [] := rfl
  simp only [allArrays, tables, List.flatMap_append, hmethods, hpaths, hblank, htables,
    List.nil_append]

/-- The code from a plan declares the arrays of its set. -/
theorem declaresArrays_ofPlan (hplan : Plan.ofActionSet set = .ok plan) :
    (SetStructs.ofPlan style plan).DeclaresArrays style set
      (plan.actions.map ActionPlan.hands) := by
  have hset : plan.set = set := (Plan.ofActionSet_eq_ok hplan).1
  refine ⟨forall₂_boundUnder hplan, allArrays_handles, allArrays_states, ?_⟩
  rw [← hset]
  exact allArrays_tables

/-- The only arrays that can be empty are the tables of profiles without bindings. -/
theorem SetStructs.DeclaresArrays.nonempty_iff {structs : SetStructs} {bound : List (List Hand)}
    (h : structs.DeclaresArrays style set bound) :
    (∀ struct ∈ structs.toList, ∀ array ∈ allArrays struct, 0 < array.2) ↔
      ∀ suggested ∈ set.profiles, suggested.bindings.pairs ≠ [] := by
  -- only tables can be empty
  have hlists : ∀ array ∈ allArrays structs.handles, 0 < array.2 := by
    rw [h.lists, List.forall_mem_map]
    intro hands hhands
    have hne : hands ≠ [] := by simpa using (List.mem_filter.1 hhands).2
    exact List.length_pos_iff.2 hne
  have htables : (∀ array ∈ allArrays structs.tables, 0 < array.2) ↔
      ∀ suggested ∈ set.profiles, suggested.bindings.pairs ≠ [] := by
    rw [h.tables, List.forall_mem_map]
    simp only [List.length_pos_iff]
  simp only [SetStructs.toList, List.forall_mem_cons, h.states]
  constructor
  · intro hall
    exact htables.1 hall.2.2.1
  · intro hbound
    exact ⟨hlists, by simp, htables.2 hbound, by simp⟩

end
end Header

/-! ## Headers -/

open Header in
/-- The arrays of a header are the lists of the paths that actions are bound under, and the
tables of the profiles. No list is empty, and a table is empty exactly where its profile has no
bindings. -/
theorem generate_arrays {style : Naming.Style} {text out : String}
    (h : generate style text = .ok out) :
    ∃ manifest header, Manifest.read text = .ok manifest ∧ Header.parse out = some header ∧
      List.Forall₂ (fun set structs => ∃ bound, structs.DeclaresArrays style set bound)
        manifest.actionSets header.sets ∧
      ((∀ structs ∈ header.sets, ∀ struct ∈ structs.toList, ∀ array ∈ allArrays struct,
          0 < array.2) ↔
        ∀ set ∈ manifest.actionSets, ∀ suggested ∈ set.profiles,
          suggested.bindings.pairs ≠ []) := by
  obtain ⟨manifest, hread, hwritten⟩ := generate_eq_ok.1 h
  obtain ⟨header, hparse, hsets⟩ := Manifest.header_parse
    (P := fun set structs => ∃ bound, structs.DeclaresArrays style set bound)
    (fun set _ plan hplan => ⟨_, declaresArrays_ofPlan hplan⟩) hwritten
  refine ⟨manifest, header, hread, hparse, hsets, ?_⟩
  refine (forall₂_forall_iff hsets fun set structs ⟨bound, harrays⟩ => ?_).symm
  exact harrays.nonempty_iff.symm

/-- A document with one action set, which suggests bindings for one profile. -/
def oneProfile (actions : List Action) (entries : List (String × Json)) : Json :=
  .object [("actionSets", .array [.object [("name", .string "play"),
    ("localizedName", .string "Play"), ("priority", .number (.integer 0)),
    ("actions", .array (actions.map Action.toJson)),
    ("suggestedBindings", .array [.object entries])]])]

/-- Such a document is as deep as its entries and a few levels more. -/
theorem exact_oneProfile (actions : List Action) {entries : List (String × Json)}
    (hentries : ∀ entry ∈ entries, Json.Exact 122 entry.2) :
    Json.Exact Json.maxDepth (oneProfile actions entries) := by
  have hactions : ∀ element ∈ actions.map Action.toJson, Json.Exact 123 element := by
    rw [List.forall_mem_map]
    intro action _
    exact action.exact_toJson 122
  refine .object (List.forall_mem_singleton.2 (.array (List.forall_mem_singleton.2 (.object ?_))))
  intro field hfield
  simp only [List.mem_cons, List.not_mem_nil, or_false] at hfield
  rcases hfield with rfl | rfl | rfl | rfl | rfl
  · exact .string _
  · exact .string _
  · exact .integer (by decide) (by decide)
  · exact .array hactions
  · exact .array (List.forall_mem_singleton.2 (.object hentries))

/-- The text of such a document gives a header with the structs of its action set. -/
theorem generate_oneProfile (style : Naming.Style) {actions : List Action}
    {entries : List (String × Json)} {set : ActionSet} {plan : Plan}
    (hentries : ∀ entry ∈ entries, Json.Exact 122 entry.2)
    (hset : Manifest.ofJson (oneProfile actions entries) = .ok ⟨[set]⟩)
    (hplan : Plan.ofActionSet set = .ok plan) :
    Manifest.read (oneProfile actions entries).write = .ok ⟨[set]⟩ ∧
      ∃ out, generate style (oneProfile actions entries).write = .ok out ∧
        Header.parse out = some ⟨[.ofPlan style plan]⟩ := by
  have hread := (Manifest.read_jsonWrite (exact_oneProfile actions hentries)).trans hset
  obtain ⟨out, hheader, hparse⟩ := Manifest.exists_header_parse style hplan
  exact ⟨hread, out, generate_eq_ok.2 ⟨_, hread, hheader⟩, hparse⟩

open Header in
/-- An action that is bound under one hand, and one that is not bound. -/
theorem generate_arrays_oneHand :
    ∃ (text out : String) (header : Header) (structs : SetStructs),
      generate .snake text = .ok out ∧ Header.parse out = some header ∧
      header.sets = [structs] ∧
      allArrays structs.handles = [("subactionPaths", 1)] ∧
      ∀ struct ∈ structs.toList, ∀ array ∈ allArrays struct, 0 < array.2 := by
  let actions : List Action := [⟨"grab", "Grab", .float, false⟩, ⟨"idle", "Idle", .float, false⟩]
  let set : ActionSet := ⟨"play", "Play", 0, actions, [⟨"/interaction_profiles/any",
    ⟨[("grab", ["/user/hand/left/input/squeeze/value"])], by decide⟩⟩]⟩
  have hset : Manifest.ofJson (oneProfile actions
      [("interactionProfile", .string "/interaction_profiles/any"),
        ("grab", .array [.string "/user/hand/left/input/squeeze/value"])]) = .ok ⟨[set]⟩ := by
    decide +kernel
  have hplan : ∃ plan, Plan.ofActionSet set = .ok plan := ⟨_, rfl⟩
  obtain ⟨plan, hplan⟩ := hplan
  obtain ⟨hread, out, hgenerate, -⟩ := generate_oneProfile .snake (by
    intro entry hentry
    rcases List.mem_pair.1 hentry with rfl | rfl
    · exact .string _
    · exact .array (List.forall_mem_singleton.2 (.string _))) hset hplan
  obtain ⟨manifest, header, hmanifest, hparse, hsets, hnonempty⟩ := generate_arrays hgenerate
  obtain rfl : ⟨[set]⟩ = manifest := Except.ok.inj (hread.symm.trans hmanifest)
  obtain ⟨structs, ⟨bound, harrays⟩, hall⟩ := forall₂_singleton_left_iff.1 hsets
  have hbound : List.Forall₂ (fun action hands => set.handsOf action.name = .ok hands)
      set.actions bound := harrays.hands.imp fun _ _ hunder => hunder.derived
  have hhands : set.actions.mapM (fun action => set.handsOf action.name) = .ok [[.left], []] := rfl
  have hsame : bound = [[.left], []] := Except.ok.inj ((mapM_eq_ok.2 hbound).symm.trans hhands)
  refine ⟨_, out, header, structs, hgenerate, hparse, hall, ?_, ?_⟩
  · rw [harrays.lists, hsame]
    rfl
  · have hpairs : ∀ set' ∈ [set], ∀ suggested ∈ set'.profiles, suggested.bindings.pairs ≠ [] := by
      decide +kernel
    have hmem : structs ∈ header.sets := by
      rw [hall]
      exact List.mem_cons_self
    exact hnonempty.2 hpairs structs hmem

open Header in
/-- A profile without bindings has a table without elements. -/
theorem not_generate_nonemptyArrays :
    ¬ ∀ (style : Naming.Style) (text out : String) (header : Header),
      generate style text = .ok out → Header.parse out = some header →
      ∀ structs ∈ header.sets, ∀ struct ∈ structs.toList, ∀ array ∈ allArrays struct,
        0 < array.2 := by
  intro hclaim
  let set : ActionSet := ⟨"play", "Play", 0, [], [⟨"/interaction_profiles/any", .empty⟩]⟩
  have hset : Manifest.ofJson (oneProfile []
      [("interactionProfile", .string "/interaction_profiles/any")]) = .ok ⟨[set]⟩ := by
    decide +kernel
  have hplan : ∃ plan, Plan.ofActionSet set = .ok plan := ⟨_, rfl⟩
  obtain ⟨plan, hplan⟩ := hplan
  obtain ⟨-, out, hgenerate, hparse⟩ := generate_oneProfile .pascal
    (List.forall_mem_singleton.2 (.string _)) hset hplan
  have htables := hclaim .pascal _ _ _ hgenerate hparse _ List.mem_cons_self
    (tables .pascal plan) (by simp [SetStructs.toList, SetStructs.ofPlan])
  rw [allArrays_tables, (Plan.ofActionSet_eq_ok hplan).1] at htables
  exact absurd (htables _ List.mem_cons_self) (Nat.lt_irrefl 0)

end XrManifest
