import XrManifest.Proofs.Header.References

/-!
# Tables of bindings

The table of a profile is declared, filled and submitted with one length, and entry by
entry it holds the bindings of the profile. The main statement is
`Manifest.header_fillsTables`.
-/

namespace XrManifest
namespace Header

open XrManifest.Cpp XrManifest.Naming

/-! ## Reading tables off the code -/

/-- The arrays that are declared, each with its type, its name and its length. -/
def arraysOf (declarations : List Declaration) : List (String × String × Nat) :=
  declarations.filterMap fun
    | .sized type name length => some (type, name, length)
    | _ => none

/-- The words that are assigned to the members with this name. -/
def wordsOf (member : String) (statements : List Statement) : List String :=
  statements.filterMap fun
    | .assign (.field _ name) (.operand (.word spelling)) =>
      if name = member then some spelling else none
    | _ => none

/-- What is assigned to entries of tables, with the table and the index. -/
def entriesOf (statements : List Statement) : List (String × Nat × Value) :=
  statements.filterMap fun
    | .assign (.entry table index) value => some (table, index, value)
    | _ => none

/-- The text of the path that a statement finds and stores in the variable `target`. -/
def pathInto? (target : String) (statement : Statement) : Option String :=
  match statement.call? with
  | some ("xrStringToPath", [_, .literal path, .address name]) =>
    if name = target then some path else none
  | _ => none

/-- The last declaration of the local variable `name` is as a path, and the one path that is
found and stored in it since has the text `path`. -/
def HoldsPath (statements : List Statement) (name path : String) : Prop :=
  ∃ before value behind,
    statements = before ++ .declare (.preset "XrPath" name value) :: behind ∧
      (∀ declaration, .declare declaration ∈ behind → declaration.name ≠ name) ∧
      behind.filterMap (pathInto? name) = [path]

/-- Every action with every path of an action set, profile by profile. -/
def allPairs (set : ActionSet) : List (String × String) :=
  set.profiles.flatMap fun suggested => suggested.bindings.pairs

/-- An entry of a table for an action and a path. -/
def entryValue (style : Style) (pair : String × String) : Value :=
  .braces [handle (actionHandle style pair.1), .word (bindingPath style pair.2)]

def submission? (code : Code) : Option CallBlock :=
  callBlock? (· = "xrSuggestInteractionProfileBindings") code

/-- The submission of the table of a profile, with the path of the profile and the number of its
bindings. -/
def tableSubmission (style : Style) (suggested : ProfileBindings) : CallBlock where
  guards := [.when .succeeded]
  declarations :=
    [.tagged "XrInteractionProfileSuggestedBinding" "interactionSuggestedBindings"
      "XR_TYPE_INTERACTION_PROFILE_SUGGESTED_BINDING"]
  assignments :=
    [(memberOf "interactionSuggestedBindings" "interactionProfile",
        .operand (.word (profilePath style suggested.profile))),
      (memberOf "interactionSuggestedBindings" "suggestedBindings",
        .operand (.word (bindingTable style suggested.profile))),
      (memberOf "interactionSuggestedBindings" "countSuggestedBindings",
        .operand (.word (toString suggested.bindings.count)))]
  calls := []
  last := some (keepResult "xrSuggestInteractionProfileBindings"
    [.word "instance", .address "interactionSuggestedBindings"])

/-- The tables of an action set are filled exactly. -/
structure SetStructs.FillsTables (structs : SetStructs) (style : Style) (set : ActionSet) :
    Prop where
  /-- The table of each profile is declared with the number of its bindings. -/
  lengths : arraysOf structs.tables.fields = set.profiles.map fun suggested =>
    ("XrActionSuggestedBinding", bindingTable style suggested.profile, suggested.bindings.count)
  /-- That many bindings are submitted. -/
  counts : ∃ method, structs.tables.method? "SuggestInteractionProfileBindings" = some method ∧
    wordsOf "countSuggestedBindings" method.statements =
      set.profiles.map fun suggested => toString suggested.bindings.count
  /-- Each table is submitted with them. -/
  submissions : ∃ method,
    structs.tables.method? "SuggestInteractionProfileBindings" = some method ∧
      method.body.filterMap submission? = set.profiles.map (tableSubmission style)
  /-- There are that many bindings. -/
  pairs : ∀ suggested ∈ set.profiles, suggested.bindings.pairs.length = suggested.bindings.count
  /-- The table of each profile is filled from its start with the bindings in order. -/
  entries : ∃ method, structs.tables.method? "Initialize" = some method ∧
    entriesOf method.statements = set.profiles.flatMap fun suggested =>
      suggested.bindings.pairs.mapIdx fun index pair =>
        (bindingTable style suggested.profile, index, entryValue style pair)
  /-- Where paths with one identifier are the same, an entry holds the path of its binding. -/
  paths : (∀ path ∈ set.allPaths, ∀ other ∈ set.allPaths,
      bindingPath style path = bindingPath style other → path = other) →
    ∃ method, structs.tables.method? "Initialize" = some method ∧
      ∀ before table index value after,
        method.statements = before ++ .assign (.entry table index) value :: after →
          ∃ pair, (allPairs set)[(entriesOf before).length]? = some pair ∧
            value = entryValue style pair ∧
            HoldsPath before (bindingPath style pair.2) pair.2

section
variable {style : Style} {plan : Plan}

/-! ## Lengths -/

/-- The tables are as long as their profiles have bindings. -/
theorem arraysOf_tables :
    arraysOf (tables style plan).fields = plan.set.profiles.map fun suggested =>
      ("XrActionSuggestedBinding", bindingTable style suggested.profile,
        suggested.bindings.count) := by
  simp [arraysOf, Struct.fields, tables]

theorem wordsOf_suggestTable (suggested : ProfileBindings) :
    wordsOf "countSuggestedBindings" (suggestTable style suggested) =
      [toString suggested.bindings.count] := by
  simp [wordsOf, suggestTable, setMember, memberOf, keepResult]

/-- As many bindings are submitted, profile by profile. -/
theorem wordsOf_suggestTables :
    wordsOf "countSuggestedBindings" (suggestTables style plan).statements =
      plan.set.profiles.map fun suggested => toString suggested.bindings.count := by
  have hstart : wordsOf "countSuggestedBindings" [startResult] = [] := by
    simp [wordsOf, startResult]
  have hreturn : wordsOf "countSuggestedBindings" [returnResult] = [] := by
    simp [wordsOf, returnResult]
  have hprofiles : wordsOf "countSuggestedBindings"
      (plan.set.profiles.flatMap (suggestTable style)) =
        plan.set.profiles.map fun suggested => toString suggested.bindings.count := by
    rw [wordsOf, List.filterMap_flatMap, List.map_eq_flatMap]
    exact List.flatMap_congr fun suggested _ => wordsOf_suggestTable suggested
  rw [suggestTables_statements, ← List.singleton_append, wordsOf, List.filterMap_append,
    List.filterMap_append]
  exact (congrArg₂ _ hstart (congrArg₂ _ hprofiles hreturn)).trans (List.append_nil _)

theorem method?_suggestTables :
    (tables style plan).method? "SuggestInteractionProfileBindings" =
      some (suggestTables style plan) := by
  have hmethods : ∃ after, (tables style plan).methods =
      [createTables style plan] ++ suggestTables style plan :: after := ⟨_, rfl⟩
  obtain ⟨after, hmethods⟩ := hmethods
  exact Struct.method?_eq_some hmethods (by simp [createTables, suggestTables])

/-- The code for a profile submits its table. -/
theorem submission?_suggestTable (suggested : ProfileBindings) :
    submission? (ifSucceeded (suggestTable style suggested)) =
      some (tableSubmission style suggested) :=
  rfl

/-- The tables are submitted in the order of their profiles. -/
theorem submissions_suggestTables :
    (suggestTables style plan).body.filterMap submission? =
      plan.set.profiles.map (tableSubmission style) := by
  have hstart : ([.statement startResult] : List Code).filterMap submission? = [] := rfl
  have hreturn : ([.blank, .statement returnResult] : List Code).filterMap submission? = [] := rfl
  have hblank : submission? .blank = none := rfl
  have hprofiles : (plan.set.profiles.flatMap fun suggested =>
      [.blank, ifSucceeded (suggestTable style suggested)]).filterMap submission? =
        plan.set.profiles.map (tableSubmission style) := by
    simp only [filterMap_behindBlanks hblank, submission?_suggestTable, ← List.filterMap_eq_map]
    rfl
  unfold suggestTables
  rw [List.filterMap_append, List.filterMap_append, hstart, hprofiles, hreturn, List.nil_append,
    List.append_nil]

/-! ## Entries -/

theorem entriesOf_append (first second : List Statement) :
    entriesOf (first ++ second) = entriesOf first ++ entriesOf second :=
  List.filterMap_append

/-- The entries of a table are those of the bindings, in order. -/
theorem entriesOf_fillTable (suggested : ProfileBindings) :
    entriesOf (fillTable style suggested) = suggested.bindings.pairs.mapIdx fun index pair =>
      (bindingTable style suggested.profile, index, entryValue style pair) := by
  simp only [entriesOf, fillTable, List.mapIdx_eq_zipIdx_map, List.filterMap_map]
  rw [← List.filterMap_eq_map]
  rfl

/-- Nothing in front of the entries is an entry. -/
theorem entriesOf_findPaths : entriesOf (findPaths style plan) = [] := by
  rw [entriesOf, List.filterMap_eq_nil_iff]
  intro statement hstatement
  rcases eq_of_mem_findPaths hstatement with rfl | ⟨path, -, rfl⟩ | ⟨path, target, rfl⟩ <;> rfl

/-- The tables are filled one after the other. -/
theorem entriesOf_createTables :
    entriesOf (createTables style plan).statements = plan.set.profiles.flatMap fun suggested =>
      suggested.bindings.pairs.mapIdx fun index pair =>
        (bindingTable style suggested.profile, index, entryValue style pair) := by
  have hreturn : entriesOf [returnResult] = [] := by simp [entriesOf, returnResult]
  have hprofiles : entriesOf (plan.set.profiles.flatMap (fillTable style)) =
      plan.set.profiles.flatMap fun suggested =>
        suggested.bindings.pairs.mapIdx fun index pair =>
          (bindingTable style suggested.profile, index, entryValue style pair) := by
    rw [entriesOf, List.filterMap_flatMap]
    exact List.flatMap_congr fun suggested _ => entriesOf_fillTable suggested
  rw [createTables_statements, entriesOf_append, entriesOf_findPaths, entriesOf_append, hprofiles,
    hreturn, List.nil_append, List.append_nil]

/-- In the order of the code, the entries are for the bindings of all profiles. -/
theorem values_createTables :
    (entriesOf (createTables style plan).statements).map (fun entry => entry.2.2) =
      (allPairs plan.set).map (entryValue style) := by
  rw [entriesOf_createTables, List.map_flatMap, allPairs, List.map_flatMap]
  refine List.flatMap_congr fun suggested _ => ?_
  exact List.ext_getElem (by simp) (by simp)

/-- An entry is for the binding at its place. -/
theorem pair_of_entry {before after : List Statement} {table : String} {index : Nat}
    {value : Value}
    (h : (createTables style plan).statements =
      before ++ .assign (.entry table index) value :: after) :
    ∃ pair, (allPairs plan.set)[(entriesOf before).length]? = some pair ∧
      value = entryValue style pair := by
  -- both sides are split at the entry
  have hvalues : (entriesOf (createTables style plan).statements).map (fun entry => entry.2.2) =
      (allPairs plan.set).map (entryValue style) := values_createTables
  have hentry : entriesOf (.assign (.entry table index) value :: after) =
      (table, index, value) :: entriesOf after := rfl
  rw [h, entriesOf_append, hentry] at hvalues
  -- the entry has as many in front of it as its pair
  have hplace := congrArg (fun values => values[(entriesOf before).length]?) hvalues
  simp only [List.map_append, List.map_cons, List.getElem?_map, List.length_map, Nat.le_refl,
    List.getElem?_append_right, Nat.sub_self, List.getElem?_cons_zero] at hplace
  obtain ⟨pair, hpair, hvalue⟩ := Option.map_eq_some_iff.1 hplace.symm
  exact ⟨pair, hpair, hvalue.symm⟩

/-! ## Paths -/

theorem pathInto?_resolvePath (target path name : String) :
    pathInto? target (resolvePath path name) = if name = target then some path else none := rfl

/-- Of the paths of the set, one is found for the identifier of a path. -/
theorem filterMap_pathInto? {path : String} {earlier later : List String}
    (hpaths : plan.paths = earlier ++ path :: later)
    (hdistinct : ∀ other ∈ earlier ++ later, bindingPath style other ≠ bindingPath style path) :
    (plan.paths.map (findPath style)).filterMap (pathInto? (bindingPath style path)) =
      [path] := by
  have hnone : ∀ others : List String, (∀ other ∈ others, other ∈ earlier ++ later) →
      (others.map (findPath style)).filterMap (pathInto? (bindingPath style path)) = [] := by
    intro others hothers
    rw [List.filterMap_eq_nil_iff]
    intro statement hstatement
    obtain ⟨other, hother, rfl⟩ := List.mem_map.1 hstatement
    rw [findPath, pathInto?_resolvePath, if_neg (hdistinct other (hothers other hother))]
  -- the path is found between the others
  rw [hpaths, List.map_append, List.map_cons, List.filterMap_append,
    hnone earlier (fun _ h => List.mem_append_left _ h),
    List.filterMap_cons_some (by rw [findPath, pathInto?_resolvePath, if_pos rfl]),
    hnone later (fun _ h => List.mem_append_right _ h)]
  rfl

/-- The paths of the entries are held by their identifiers. -/
theorem holdsPath_entry (hderived : plan.Derived)
    (hdistinct : ∀ path ∈ plan.set.allPaths, ∀ other ∈ plan.set.allPaths,
      bindingPath style path = bindingPath style other → path = other)
    {before after : List Statement} {table : String} {index : Nat} {value : Value}
    (h : (createTables style plan).statements =
      before ++ .assign (.entry table index) value :: after)
    {path : String} (hpath : path ∈ plan.set.allPaths) :
    HoldsPath before (bindingPath style path) path := by
  obtain ⟨more, rfl, hback⟩ := before_entry h
  have hmem : ∀ {other}, other ∈ plan.paths ↔ other ∈ plan.set.allPaths := by
    rw [hderived.paths]
    exact ActionSet.mem_distinctPaths
  obtain ⟨earlier, later, hpaths⟩ := List.append_of_mem (hmem.2 hpath)
  -- no other path of the set has the identifier
  have hothers : ∀ other ∈ earlier ++ later,
      bindingPath style other ≠ bindingPath style path := by
    intro other hother hsame
    have hnodup : plan.paths.Nodup := hderived.paths ▸ ActionSet.nodup_distinctPaths
    have hin : other ∈ plan.paths := by
      rw [hpaths]
      exact List.mem_append.2 ((List.mem_append.1 hother).imp_right (List.mem_cons_of_mem _))
    rcases hdistinct other (hmem.1 hin) path hpath hsame with rfl
    rw [hpaths, List.nodup_middle, List.nodup_cons] at hnodup
    exact hnodup.1 hother
  -- Behind the declaration come the other declarations, all paths, and entries.
  have hmore : ∀ statement ∈ more, (∀ declaration, statement ≠ .declare declaration) ∧
      pathInto? (bindingPath style path) statement = none := by
    intro statement hstatement
    have hfill : statement ∈ plan.set.profiles.flatMap (fillTable style) ++ [returnResult] := by
      rw [hback]
      exact List.mem_append_left _ hstatement
    rcases eq_of_mem_fillTables hfill with rfl | ⟨_, -, _, -, _, rfl⟩ <;>
      exact ⟨fun _ hdeclare => (nomatch hdeclare), rfl⟩
  refine ⟨(startResult :: plan.set.profiles.map fun suggested =>
      resolvePath suggested.profile (profilePath style suggested.profile)) ++
      earlier.map (declarePath style),
    .operand (.word "XR_NULL_PATH"),
    later.map (declarePath style) ++ (plan.paths.map (findPath style) ++ more), ?_, ?_, ?_⟩
  · have hdeclared : plan.paths.map (declarePath style) = earlier.map (declarePath style) ++
        declarePath style path :: later.map (declarePath style) := by
      rw [hpaths, List.map_append, List.map_cons]
    rw [findPaths, hdeclared]
    simp [declarePath]
  · intro declaration hdeclaration
    rcases List.mem_append.1 hdeclaration with hlater | hrest
    · -- a later declaration is for another path
      obtain ⟨other, hother, hsame⟩ := List.mem_map.1 hlater
      rw [← Statement.declare.inj hsame]
      exact hothers other (List.mem_append_right _ hother)
    · rcases List.mem_append.1 hrest with hfind | hmem'
      · obtain ⟨other, -, hsame⟩ := List.mem_map.1 hfind
        cases hsame
      · exact absurd rfl ((hmore _ hmem').1 declaration)
  · have hdeclared : (later.map (declarePath style)).filterMap
        (pathInto? (bindingPath style path)) = [] := by
      rw [List.filterMap_eq_nil_iff]
      intro statement hstatement
      obtain ⟨other, -, rfl⟩ := List.mem_map.1 hstatement
      rfl
    have hentries : more.filterMap (pathInto? (bindingPath style path)) = [] :=
      List.filterMap_eq_nil_iff.2 fun statement hstatement => (hmore statement hstatement).2
    rw [List.filterMap_append, List.filterMap_append, hdeclared, hentries,
      filterMap_pathInto? hpaths hothers]
    rfl

/-- The code from a plan fills the tables exactly. -/
theorem fillsTables_ofPlan (hderived : plan.Derived) :
    (SetStructs.ofPlan style plan).FillsTables style plan.set where
  lengths := arraysOf_tables
  counts := ⟨_, method?_suggestTables, wordsOf_suggestTables⟩
  submissions := ⟨_, method?_suggestTables, submissions_suggestTables⟩
  pairs := fun suggested _ => suggested.bindings.length_pairs
  entries := ⟨_, method?_tables, entriesOf_createTables⟩
  paths := by
    intro hdistinct
    refine ⟨_, method?_tables, fun before table index value after h => ?_⟩
    -- the path of an entry is a path of the set, as its pair is one of a profile
    obtain ⟨pair, hpair, hvalue⟩ := pair_of_entry h
    obtain ⟨suggested, hsuggested, hmem⟩ := List.mem_flatMap.1 (List.mem_of_getElem? hpair)
    have hpath := ActionSet.mem_allPaths_of_pair hsuggested hmem
    exact ⟨pair, hpair, hvalue, holdsPath_entry hderived hdistinct h hpath⟩

end
end Header

/-! ## Headers -/

/-- For each action set of a manifest, the tables of its bindings are declared, filled and
submitted with one length, and hold the bindings in order. -/
theorem Manifest.header_fillsTables {style : Naming.Style} {manifest : Manifest} {text : String}
    (h : manifest.header style = .ok text) :
    ∃ header, Header.parse text = some header ∧
      List.Forall₂ (fun set structs => structs.tables.name = Header.bindingsStruct style set.name ∧
          structs.FillsTables style set)
        manifest.actionSets header.sets := by
  refine header_parse_derived (fun set _ plan hsame hderived => ?_) h
  subst hsame
  exact ⟨rfl, Header.fillsTables_ofPlan hderived⟩

/-- A path that is bound twice, and another. -/
theorem Manifest.header_fillsTables_shared :
    ∃ (manifest : Manifest) (text : String) (header : Header) (set : ActionSet)
        (structs : Header.SetStructs),
      manifest.actionSets = [set] ∧ manifest.header .snake = .ok text ∧
      Header.parse text = some header ∧ header.sets = [structs] ∧ Header.allPairs set =
        [("grab", "/user/hand/left/input/x"), ("grab", "/user/hand/right/input/x"),
          ("jump", "/user/hand/left/input/x")] ∧
      structs.FillsTables .snake set ∧
      ∀ path ∈ set.allPaths, ∀ other ∈ set.allPaths,
        Header.bindingPath .snake path = Header.bindingPath .snake other → path = other := by
  let suggested : ProfileBindings := ⟨"/interaction_profiles/any",
    ⟨[("grab", ["/user/hand/left/input/x", "/user/hand/right/input/x"]),
      ("jump", ["/user/hand/left/input/x"])], by decide⟩⟩
  let set : ActionSet := ⟨"play", "Play", 0,
    [⟨"grab", "Grab", .float, true⟩, ⟨"jump", "Jump", .boolean, false⟩], [suggested]⟩
  have hplan : ∃ plan, Plan.ofActionSet set = .ok plan := ⟨_, rfl⟩
  obtain ⟨plan, hplan⟩ := hplan
  obtain ⟨text, hheader⟩ := exists_header_singleton .snake hplan
  obtain ⟨header, hparse, hsets⟩ := header_fillsTables hheader
  obtain ⟨structs, hstructs, hall⟩ := forall₂_singleton_left_iff.1 hsets
  exact ⟨⟨[set]⟩, text, header, set, structs, rfl, hheader, hparse, hall, rfl, hstructs.2,
    by decide +kernel⟩

end XrManifest
