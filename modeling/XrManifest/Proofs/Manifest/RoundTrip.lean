import XrManifest.Manifest.Writing
import XrManifest.Proofs.Json.RelaxedSyntax
import XrManifest.Proofs.Json.Writing
import XrManifest.Proofs.Manifest.ManifestDecoding

/-!
# Manifests that are written

A manifest without suggested bindings is written as strict text, and this text is read as the
same manifest. The main statement is `Manifest.write_roundTrip`.
-/

namespace XrManifest

open XrManifest.Json

/-! ## Documents -/

/-- An action is one level deep, and its numbers are exact. -/
theorem Action.exact_toJson (action : Action) (depth : Nat) : Exact (depth + 1) action.toJson := by
  refine .object fun entry hentry => ?_
  simp only [List.mem_cons, List.not_mem_nil, or_false] at hentry
  rcases hentry with rfl | rfl | rfl | rfl
  · exact .string _
  · exact .string _
  · exact .string _
  · exact .boolean _

/-- The document of an action lays it out. -/
theorem Action.laidOut_toJson (action : Action) : action.LaidOut action.toJson := by
  have hspelled : action.type.SpelledBy action.type.name := by
    refine ⟨action.type.name, ?_, ?_⟩
    · cases action.type <;> decide
    · cases action.type <;> decide
  refine ⟨_, rfl, ?_, ?_, ⟨_, hspelled, ?_⟩, .inl ?_⟩ <;>
  · simp (disch := decide) only [valuesOf_cons_of_ne, valuesOf_cons_of_same]
    rfl

namespace ActionSet

variable {set : ActionSet} {document : Json}

/-- The document of a set without suggested bindings. -/
theorem toJson_eq_ok (h : set.toJson = .ok document) :
    set.profiles = [] ∧
      document = .object [("name", .string set.name), ("localizedName", .string set.localizedName),
        ("priority", .number (.integer set.priority.toInt)),
        ("actions", .array (set.actions.map Action.toJson)), ("suggestedBindings", .array [])] := by
  unfold toJson at h
  split at h
  · rename_i hempty
    exact ⟨List.isEmpty_iff.1 hempty, (Except.ok.inj h).symm⟩
  · cases h

/-- Only suggested bindings keep a set from being written. -/
theorem toJson_eq_error {error : WriteError} :
    set.toJson = .error error ↔ set.profiles ≠ [] := by
  unfold toJson
  cases set.profiles with
  | nil => simp
  | cons suggested profiles => cases error; simp

/-- A set is three levels deep. -/
theorem exact_toJson (h : set.toJson = .ok document) (depth : Nat) :
    Exact (depth + 3) document := by
  -- 32 bits fit into the integers that can be written
  have hlow : Int64.minValue.toInt ≤ set.priority.toInt :=
    Int.le_trans (by decide) set.priority.minValue_le_toInt
  have hhigh : set.priority.toInt < UInt64.size :=
    Int.lt_of_le_of_lt set.priority.toInt_le (by decide)
  rw [(toJson_eq_ok h).2]
  refine .object fun entry hentry => ?_
  simp only [List.mem_cons, List.not_mem_nil, or_false] at hentry
  rcases hentry with rfl | rfl | rfl | rfl | rfl
  · exact .string _
  · exact .string _
  · exact .integer hlow hhigh
  · refine .array fun element helement => ?_
    obtain ⟨action, -, rfl⟩ := List.mem_map.1 helement
    exact action.exact_toJson depth
  · exact .array (by simp)

/-- The document of a set lays it out. -/
theorem laidOut_toJson (h : set.toJson = .ok document) : set.LaidOut document := by
  obtain ⟨hprofiles, rfl⟩ := toJson_eq_ok h
  have hactions : List.Forall₂ Action.LaidOut set.actions (set.actions.map Action.toJson) := by
    rw [List.forall₂_map_right_iff, List.forall₂_same]
    exact fun action _ => action.laidOut_toJson
  refine ⟨_, rfl, ?_, ?_, ?_, ⟨_, ?_, hactions⟩, ⟨[], ?_, hprofiles ▸ .nil⟩⟩ <;>
  · simp (disch := decide) only [valuesOf_cons_of_ne, valuesOf_cons_of_same]
    rfl

end ActionSet

namespace Manifest

variable {manifest : Manifest} {document : Json}

/-- The document of a manifest lists those of its sets. -/
theorem toJson_eq_ok (h : manifest.toJson = .ok document) :
    ∃ sets, List.Forall₂ (fun set document => set.toJson = .ok document) manifest.actionSets sets ∧
      document = .object [("actionSets", .array sets)] := by
  obtain ⟨sets, hsets, hdocument⟩ := bind_eq_ok.1 h
  exact ⟨sets, mapM_eq_ok.1 hsets, (Except.ok.inj hdocument).symm⟩

theorem exact_toJson (h : manifest.toJson = .ok document) : Exact maxDepth document := by
  obtain ⟨sets, hsets, rfl⟩ := toJson_eq_ok h
  have hexact : ∀ element ∈ sets, Exact 125 element := by
    intro element helement
    obtain ⟨set, -, hset⟩ := exists_step_of_mapM (mapM_eq_ok.2 hsets) helement
    exact ActionSet.exact_toJson hset 122
  exact .object (List.forall_mem_singleton.2 (.array hexact))

/-- The document of a manifest is read as the manifest. -/
theorem ofJson_toJson (h : manifest.toJson = .ok document) : ofJson document = .ok manifest := by
  obtain ⟨sets, hsets, rfl⟩ := toJson_eq_ok h
  have hread : List.Forall₂ ActionSet.ReadFrom manifest.actionSets sets := by
    refine hsets.imp fun set document hset => ?_
    refine ActionSet.readFrom_of_laidOut ?_ (ActionSet.laidOut_toJson hset)
    simp [(ActionSet.toJson_eq_ok hset).1]
  have hlists : Lists [("actionSets", .array sets)] "actionSets" ActionSet.ReadFrom
      manifest.actionSets := ⟨sets, valuesOf_cons_of_same (by decide) _ _, hread⟩
  exact ofJson_eq_ok.2 ⟨_, rfl, hlists.latest⟩

theorem write_eq_ok {text : String} :
    manifest.write = .ok text ↔ ∃ document, manifest.toJson = .ok document ∧
      document.write = text := by
  constructor
  · intro h
    obtain ⟨document, hdocument, htext⟩ := bind_eq_ok.1 h
    exact ⟨document, hdocument, Except.ok.inj htext⟩
  · rintro ⟨document, hdocument, rfl⟩
    exact bind_eq_ok.2 ⟨document, hdocument, rfl⟩

/-- The text of a document is strict. -/
theorem toStrict_jsonWrite (h : Exact maxDepth document) :
    Json.Relaxed.toStrict document.write = document.write := by
  rw [Json.write, Json.Relaxed.toStrict, String.toList_ofList,
    Json.Relaxed.strictChars_of_readText (readText_writeValue h)]

/-- The text of a document is read as the document. -/
theorem read_jsonWrite (h : Exact maxDepth document) : read document.write = ofJson document := by
  have hread : Json.read document.write = .ok document := by
    rw [Json.read, mapError_eq_ok, Json.write, String.toList_ofList]
    exact readText_writeValue h
  rw [read, toStrict_jsonWrite h, hread]
  rfl

/-- The text of a manifest is strict, and it is read as the manifest. -/
theorem read_write {text : String} (h : manifest.write = .ok text) :
    Json.Relaxed.toStrict text = text ∧ read text = .ok manifest := by
  obtain ⟨document, hdocument, rfl⟩ := write_eq_ok.1 h
  have hexact := exact_toJson hdocument
  exact ⟨toStrict_jsonWrite hexact, (read_jsonWrite hexact).trans (ofJson_toJson hdocument)⟩

/-- A manifest cannot be written exactly when one of its sets suggests bindings. -/
theorem exists_write_error :
    (∃ error, manifest.write = .error error) ↔ ∃ set ∈ manifest.actionSets, set.profiles ≠ [] := by
  constructor
  · rintro ⟨error, h⟩
    rcases bind_eq_error.1 h with hdocument | ⟨document, -, hpure⟩
    · rcases bind_eq_error.1 hdocument with hsets | ⟨sets, -, hpure⟩
      · obtain ⟨set, hset, hfailure⟩ := exists_failure_of_mapM hsets
        exact ⟨set, hset, ActionSet.toJson_eq_error.1 hfailure⟩
      · cases hpure
    · cases hpure
  · rintro ⟨set, hset, hprofiles⟩
    cases hwrite : manifest.write with
    | error error => exact ⟨error, rfl⟩
    | ok text =>
      -- every set of a manifest that is written has a document
      obtain ⟨document, hdocument, -⟩ := write_eq_ok.1 hwrite
      obtain ⟨sets, hsets, -⟩ := toJson_eq_ok hdocument
      obtain ⟨_, -, hok⟩ := exists_result_of_mapM (mapM_eq_ok.2 hsets) hset
      exact absurd (ActionSet.toJson_eq_ok hok).1 hprofiles

/-- A manifest is written unless one of its sets suggests bindings, which the error says. Its
text is strict already, and it is read as the same manifest. -/
theorem write_roundTrip (manifest : Manifest) :
    ((∃ error, manifest.write = .error error) ↔
      ∃ set ∈ manifest.actionSets, set.profiles ≠ []) ∧
    (∀ error, manifest.write = .error error →
      error.message = "Unimplemented operation: serializing suggested bindings") ∧
    ((∀ set ∈ manifest.actionSets, set.profiles = []) →
      ∃ text, manifest.write = .ok text ∧ Json.Relaxed.toStrict text = text ∧
        read text = .ok manifest) := by
  refine ⟨exists_write_error, fun error _ => by cases error; rfl, fun hprofiles => ?_⟩
  cases hwrite : manifest.write with
  | ok text => exact ⟨text, rfl, read_write hwrite⟩
  | error error =>
    -- an error would need a set with profiles
    obtain ⟨set, hset, hne⟩ := exists_write_error.1 ⟨error, hwrite⟩
    exact absurd (hprofiles set hset) hne

/-- A manifest whose names hold quotes, backslashes, comments, brackets, control characters and
letters of other scripts. -/
theorem write_roundTrip_specials :
    ∃ text, write
        ⟨[⟨"/* \"", "// \\ \n", -2147483648, [⟨"\x01\t,]", "é ∀ 🎮", .vector2, true⟩], []⟩]⟩ =
        .ok text ∧ Json.Relaxed.toStrict text = text ∧
      read text = .ok
        ⟨[⟨"/* \"", "// \\ \n", -2147483648, [⟨"\x01\t,]", "é ∀ 🎮", .vector2, true⟩], []⟩]⟩ :=
  (write_roundTrip _).2.2 (by simp)

end Manifest
end XrManifest
