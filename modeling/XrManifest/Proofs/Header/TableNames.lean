import XrManifest.Proofs.Header.Parsing
import XrManifest.Proofs.Naming.Keys
import XrManifest.Proofs.Naming.Letters

/-!
# Tables and paths with the same identifier

Profiles and binding paths may be named freely. An identifier does not keep what stands between
their letters and digits, nor all of their case, so that different ones can become the same
identifier; a profile can also become the identifier of the table of another one. Names with
other letters and digits stay apart. The main statement is `Manifest.header_distinctTables`.
-/

namespace XrManifest

open XrManifest.Cpp XrManifest.Naming

namespace Header

/-- The names of the local variables of this type, in the order of their declarations. -/
def localsOfType (type : String) (statements : List Statement) : List String :=
  statements.filterMap fun
    | .declare declaration => if declaration.type = type then some declaration.name else none
    | _ => none

/-! ## Reasons for the same identifier -/

/-- Different profiles of a set stay different as identifiers, and none becomes the identifier
of the table of another one. -/
structure ProfilesApart (style : Style) (set : ActionSet) : Prop where
  paths : ∀ suggested ∈ set.profiles, ∀ other ∈ set.profiles, suggested.profile ≠ other.profile →
    profilePath style suggested.profile ≠ profilePath style other.profile
  tables : ∀ suggested ∈ set.profiles, ∀ other ∈ set.profiles,
    suggested.profile ≠ other.profile →
      profilePath style suggested.profile ≠ bindingTable style other.profile

/-- Different binding paths of a set stay different as identifiers. -/
def PathsApart (style : Style) (set : ActionSet) : Prop :=
  ∀ path ∈ set.allPaths, ∀ other ∈ set.allPaths, path ≠ other →
    bindingPath style path ≠ bindingPath style other

/-- What a profile is named by: its text without the root of profiles. -/
def withoutRoot (profile : String) : List Char := removeFrom profileRoot.toList 0 profile.toList

/-! ## Identifiers -/

section
variable {style : Style} {profile other : String}

/-- The word that is put behind the names of two tables does not matter. -/
theorem bindingTable_eq_bindingTable :
    bindingTable style profile = bindingTable style other ↔
      profilePath style profile = profilePath style other := by
  simp only [bindingTable, profilePath, Style.rename_eq_rename, List.flatMap_cons,
    List.flatMap_nil, List.append_nil, List.append_cancel_right_eq]

/-- A profile does not become the identifier of its own table. -/
theorem profilePath_ne_bindingTable : profilePath style profile ≠ bindingTable style profile := by
  have hword : style.key "Bindings".toList ≠ [] := by cases style <;> decide
  simpa [profilePath, bindingTable, Style.rename_eq_rename] using hword

/-- No letter is lost when slashes are joined. -/
theorem letters_slashesJoined (text : List Char) : letters (slashesJoined text) = letters text := by
  induction text with
  | nil => rfl
  | cons c rest ih =>
    have hfirst : letters [if c = '/' then '_' else c] = letters [c] := by
      split
      · rename_i hslash
        rw [hslash]
        decide
      · rfl
    calc letters (slashesJoined (c :: rest))
        = letters ([if c = '/' then '_' else c] ++ slashesJoined rest) := rfl
      _ = letters (c :: rest) := by rw [letters_append, hfirst, ih, ← letters_append]; rfl

/-- The identifier of a path has all of its letters and digits. -/
theorem letters_bindingPath (path : String) :
    letters (bindingPath style path).toList = letters path.toList := by
  simp [bindingPath, Style.letters_rename, pathFragment, letters_slashesJoined]

/-- The identifier of a profile has the letters and digits behind its root. -/
theorem letters_profilePath :
    letters (profilePath style profile).toList = letters (withoutRoot profile) := by
  simp [profilePath, Style.letters_rename, profileFragment, letters_slashesJoined, withoutRoot]

/-- The identifier of a table has one word more. -/
theorem letters_bindingTable :
    letters (bindingTable style profile).toList =
      letters (withoutRoot profile) ++ "bindings".toList := by
  have hword : letters "Bindings".toList = "bindings".toList := by decide
  simp only [bindingTable, Style.letters_rename, profileFragment, String.toList_ofList,
    List.flatMap_cons, List.flatMap_nil, List.append_nil, letters_slashesJoined, hword]
  rfl

end

/-! ## The names of the struct -/

section
variable {style : Style} {plan : Plan}

/-- The fields are named by the profiles, and then by their tables. -/
theorem fieldNames_tables :
    (tables style plan).fields.map Declaration.name =
      (plan.set.profiles.map ProfileBindings.profile).map (profilePath style) ++
        (plan.set.profiles.map ProfileBindings.profile).map (bindingTable style) := by
  simp [tables, Struct.fields, Declaration.name, Function.comp_def]

theorem localsOfType_append (type : String) (first second : List Statement) :
    localsOfType type (first ++ second) = localsOfType type first ++ localsOfType type second :=
  List.filterMap_append

/-- The local variables of paths are declared for the binding paths. -/
theorem localPaths_createTables :
    localsOfType "XrPath" (createTables style plan).statements =
      plan.paths.map (bindingPath style) := by
  have hdeclare : localsOfType "XrPath" (plan.paths.map (declarePath style)) =
      plan.paths.map (bindingPath style) := by
    rw [localsOfType, List.filterMap_map, ← List.filterMap_eq_map]
    rfl
  -- nothing but the declarations of the paths is such a local variable
  have hfront : localsOfType "XrPath" (startResult :: plan.set.profiles.map fun suggested =>
      resolvePath suggested.profile (profilePath style suggested.profile)) = [] := by
    rw [localsOfType, List.filterMap_eq_nil_iff]
    intro statement hstatement
    rcases List.mem_cons.1 hstatement with rfl | hresolve
    · rfl
    · obtain ⟨suggested, -, rfl⟩ := List.mem_map.1 hresolve
      rfl
  have hfind : localsOfType "XrPath" (plan.paths.map (findPath style)) = [] := by
    rw [localsOfType, List.filterMap_eq_nil_iff, List.forall_mem_map]
    intro path _
    rfl
  have hfill : localsOfType "XrPath"
      (plan.set.profiles.flatMap (fillTable style) ++ [returnResult]) = [] := by
    rw [localsOfType, List.filterMap_eq_nil_iff]
    intro statement hstatement
    rcases eq_of_mem_fillTables hstatement with rfl | ⟨_, -, _, -, _, rfl⟩ <;> rfl
  rw [createTables_statements, findPaths, localsOfType_append, localsOfType_append,
    localsOfType_append, hfront, hdeclare, hfind, hfill, List.nil_append, List.append_nil,
    List.append_nil]

/-- The fields have different identifiers exactly when the profiles are apart. -/
theorem nodup_fieldNames_iff
    (hprofiles : (plan.set.profiles.map ProfileBindings.profile).Nodup) :
    ((tables style plan).fields.map Declaration.name).Nodup ↔ ProfilesApart style plan.set := by
  rw [fieldNames_tables, List.nodup_append, List.nodup_map_iff_inj_on hprofiles,
    List.nodup_map_iff_inj_on hprofiles]
  simp only [bindingTable_eq_bindingTable, List.forall_mem_map]
  constructor
  · rintro ⟨hpaths, -, hdisjoint⟩
    constructor
    · intro suggested hsuggested other hother hne hsame
      exact hne (hpaths suggested hsuggested other hother hsame)
    · intro suggested hsuggested other hother _
      exact hdisjoint suggested hsuggested other hother
  · rintro ⟨hpaths, htables⟩
    have hinj : ∀ suggested ∈ plan.set.profiles, ∀ other ∈ plan.set.profiles,
        profilePath style suggested.profile = profilePath style other.profile →
          suggested.profile = other.profile := by
      intro suggested hsuggested other hother hsame
      by_contra hne
      exact hpaths suggested hsuggested other hother hne hsame
    refine ⟨hinj, hinj, ?_⟩
    intro suggested hsuggested other hother
    -- a table and a path of one profile never share a name
    by_cases hsame : suggested.profile = other.profile
    · rw [hsame]
      exact profilePath_ne_bindingTable
    · exact htables suggested hsuggested other hother hsame

/-- The local variables differ exactly when the paths do. -/
theorem nodup_localPaths_iff (hpaths : plan.paths = plan.set.distinctPaths) :
    (localsOfType "XrPath" (createTables style plan).statements).Nodup ↔
      PathsApart style plan.set := by
  rw [localPaths_createTables, hpaths, List.nodup_map_iff_inj_on ActionSet.nodup_distinctPaths]
  simp only [ActionSet.mem_distinctPaths]
  constructor
  · intro hinj path hpath other hother hne hsame
    exact hne (hinj path hpath other hother hsame)
  · intro hapart path hpath other hother hsame
    by_contra hne
    exact hapart path hpath other hother hne hsame

end
end Header

/-! ## Headers -/

open Header in
/-- Where the profiles of a set differ, the fields of its struct of tables have different
identifiers exactly when the profiles are apart. One local variable is declared for each binding
path, and these have different identifiers exactly when the paths are apart. Whatever becomes the
same identifier has the same letters and digits, but for their case. -/
theorem Manifest.header_distinctTables {style : Style} {manifest : Manifest} {text : String}
    (h : manifest.header style = .ok text) :
    (∃ header, Header.parse text = some header ∧
      List.Forall₂ (fun set structs =>
          structs.tables.name = bindingsStruct style set.name ∧
          ((set.profiles.map ProfileBindings.profile).Nodup →
            ((structs.tables.fields.map Declaration.name).Nodup ↔ ProfilesApart style set)) ∧
          ∃ method, structs.tables.method? "Initialize" = some method ∧
            localsOfType "XrPath" method.statements =
              set.distinctPaths.map (bindingPath style) ∧
            ((localsOfType "XrPath" method.statements).Nodup ↔ PathsApart style set))
        manifest.actionSets header.sets) ∧
    (∀ profile other, profilePath style profile = profilePath style other →
      letters (withoutRoot profile) = letters (withoutRoot other)) ∧
    (∀ profile other, profilePath style profile = bindingTable style other →
      letters (withoutRoot profile) = letters (withoutRoot other) ++ "bindings".toList) ∧
    ∀ path other, bindingPath style path = bindingPath style other →
      letters path.toList = letters other.toList := by
  refine ⟨?_, ?_, ?_, ?_⟩
  · refine header_parse (fun set _ plan hplan => ?_) h
    obtain ⟨hset, hderived⟩ := Plan.derived_of_ofActionSet hplan
    have hpaths := hderived.paths
    subst hset
    refine ⟨rfl, nodup_fieldNames_iff, createTables style plan, method?_tables, ?_,
      nodup_localPaths_iff hpaths⟩
    rw [localPaths_createTables, hpaths]
  · intro profile other hsame
    calc letters (withoutRoot profile)
        = letters (profilePath style profile).toList := letters_profilePath.symm
      _ = letters (profilePath style other).toList := by rw [hsame]
      _ = letters (withoutRoot other) := letters_profilePath
  · intro profile other hsame
    calc letters (withoutRoot profile)
        = letters (profilePath style profile).toList := letters_profilePath.symm
      _ = letters (bindingTable style other).toList := by rw [hsame]
      _ = letters (withoutRoot other) ++ "bindings".toList := letters_bindingTable
  · intro path other hsame
    calc letters path.toList
        = letters (bindingPath style path).toList := (letters_bindingPath path).symm
      _ = letters (bindingPath style other).toList := by rw [hsame]
      _ = letters other.toList := letters_bindingPath other

open Header in
/-- Two profiles of one maker, and two paths of one hand. -/
theorem Manifest.header_distinctTables_twoProfiles :
    ∃ (manifest : Manifest) (text : String) (header : Header) (set : ActionSet)
        (structs : SetStructs) (method : Method),
      manifest.actionSets = [set] ∧ manifest.header .snake = .ok text ∧
      Header.parse text = some header ∧ header.sets = [structs] ∧
      (structs.tables.fields.map Declaration.name).Nodup ∧
      structs.tables.method? "Initialize" = some method ∧
      (localsOfType "XrPath" method.statements).Nodup := by
  let first : ProfileBindings := ⟨"/interaction_profiles/htc/vive_controller",
    ⟨[("grab", ["/user/hand/left/input/squeeze/click"])], by decide⟩⟩
  let second : ProfileBindings := ⟨"/interaction_profiles/htc/vive_pro",
    ⟨[("grab", ["/user/hand/left/input/squeeze/value"])], by decide⟩⟩
  let set : ActionSet := ⟨"play", "Play", 0, [⟨"grab", "Grab", .boolean, false⟩], [first, second]⟩
  have hplan : ∃ plan, Plan.ofActionSet set = .ok plan := ⟨_, rfl⟩
  obtain ⟨plan, hplan⟩ := hplan
  obtain ⟨text, hheader⟩ := exists_header_singleton .snake hplan
  obtain ⟨⟨header, hparse, hsets⟩, -⟩ := header_distinctTables hheader
  obtain ⟨structs, ⟨-, hfields, method, hmethod, -, hlocals⟩, hall⟩ :=
    forall₂_singleton_left_iff.1 hsets
  refine ⟨⟨[set]⟩, text, header, set, structs, method, rfl, hheader, hparse, hall,
    (hfields ?_).2 ?_, hmethod, hlocals.2 ?_⟩
  · decide +kernel
  · exact ⟨by decide +kernel, by decide +kernel⟩
  · unfold PathsApart
    decide +kernel

/-- A set whose profiles, and whose paths, differ in what stands between their words only. -/
def ActionSet.namedAlike : ActionSet where
  name := "play"
  localizedName := "Play"
  priority := 0
  actions := [⟨"grab", "Grab", .boolean, false⟩]
  profiles := [⟨"/interaction_profiles/acme/touch_pro",
      ⟨[("grab", ["/user/hand/left/input/grip/click", "/user/hand/left/input/grip_click"])],
        by decide⟩⟩,
    ⟨"/interaction_profiles/acme_touch/pro", .empty⟩]

open Header in
/-- Different profiles are not enough: two fields have the same identifier, and so have the
local variables of two paths. -/
theorem ActionSet.namedAlike_repeats :
    ∃ (text : String) (header : Header) (structs : SetStructs) (method : Method),
      Manifest.header .pascal ⟨[namedAlike]⟩ = .ok text ∧ Header.parse text = some header ∧
      header.sets = [structs] ∧
      structs.tables.name = bindingsStruct .pascal namedAlike.name ∧
      (namedAlike.profiles.map ProfileBindings.profile).Nodup ∧
      ¬ (structs.tables.fields.map Declaration.name).Nodup ∧
      structs.tables.method? "Initialize" = some method ∧
      ¬ (localsOfType "XrPath" method.statements).Nodup := by
  have hplan : ∃ plan, Plan.ofActionSet namedAlike = .ok plan := ⟨_, rfl⟩
  obtain ⟨plan, hplan⟩ := hplan
  obtain ⟨hset, hderived⟩ := Plan.derived_of_ofActionSet hplan
  have hprofiles : (namedAlike.profiles.map ProfileBindings.profile).Nodup := by decide +kernel
  obtain ⟨text, hheader, hparse⟩ := Manifest.exists_header_parse .pascal hplan
  refine ⟨text, _, _, createTables .pascal plan, hheader, hparse, rfl, ?_, hprofiles, ?_,
    method?_tables, ?_⟩
  · rw [← hset]
    rfl
  · show ¬ ((tables .pascal plan).fields.map Declaration.name).Nodup
    rw [nodup_fieldNames_iff (by rw [hset]; exact hprofiles), hset]
    intro hapart
    have hsame : profilePath .pascal "/interaction_profiles/acme/touch_pro" =
        profilePath .pascal "/interaction_profiles/acme_touch/pro" := by decide +kernel
    exact hapart.paths _ List.mem_cons_self _ (List.mem_cons_of_mem _ List.mem_cons_self)
      (by decide +kernel) hsame
  · rw [nodup_localPaths_iff hderived.paths, hset]
    intro hapart
    have hsame : bindingPath .pascal "/user/hand/left/input/grip/click" =
        bindingPath .pascal "/user/hand/left/input/grip_click" := by decide +kernel
    exact hapart _ (by decide +kernel) _ (by decide +kernel) (by decide +kernel) hsame

end XrManifest
