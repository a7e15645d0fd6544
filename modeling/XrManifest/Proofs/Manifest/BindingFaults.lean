import Mathlib.Data.Set.List
import XrManifest.Proofs.Manifest.BindingDecoding

/-!
# Faults of the bindings of a profile

The object of a profile's bindings is read entry by entry, and the first entry at fault is
reported. `Fault` says what can be wrong with an entry behind others, and `Admissible` what
the entries have to be like all together. The main statement is `ofNode_object`: admissible
entries are read without a loss, and all others are refused with the error of the first
fault, or because the profile has no name.
-/

namespace XrManifest

open XrManifest.Text

namespace Located

variable {location : Location} {value : Json} {error : ReadError}

theorem string_eq_error :
    string ⟨value, location⟩ = .error error ↔
      value.kind ≠ .string ∧ error = .mismatch location .string value.kind := by
  cases value <;> simp [string, mismatch, Json.kind, eq_comm]

theorem elements_eq_error :
    elements ⟨value, location⟩ = .error error ↔
      value.kind ≠ .array ∧ error = .mismatch location .array value.kind := by
  cases value <;> simp [elements, mismatch, Json.kind, eq_comm]

/-- A list of texts is refused at the first value that is none. -/
theorem mapM_string_eq_error (place : Nat → Location) (values : List Json) :
    (values.mapIdx fun index value => (⟨value, place index⟩ : Located)).mapM string =
        .error error ↔
      ∃ (texts : List String) (value : Json) (after : List Json),
        values = texts.map .string ++ value :: after ∧ value.kind ≠ .string ∧
          error = .mismatch (place texts.length) .string value.kind := by
  -- the places move on with the values
  induction values generalizing place with
  | nil =>
    constructor
    · intro h
      cases h
    · rintro ⟨texts, value, after, hvalues, -⟩
      exact absurd hvalues.symm (by simp)
  | cons first values ih =>
    rw [List.mapIdx_cons, List.mapM_cons, bind_eq_error, string_eq_error]
    constructor
    · rintro (⟨hfirst, herror⟩ | ⟨text, htext, hrest⟩)
      · exact ⟨[], first, values, rfl, hfirst, herror⟩
      · -- the first value is a text, so the fault is behind it
        have hfirst : first = .string text := string_eq_ok.1 htext
        rcases bind_eq_error.1 hrest with hrest | ⟨_, -, hpure⟩
        · obtain ⟨texts, value, after, rfl, hvalue, herror⟩ :=
            (ih fun index => place (index + 1)).1 hrest
          exact ⟨text :: texts, value, after, by rw [hfirst]; rfl, hvalue, herror⟩
        · cases hpure
    · rintro ⟨texts, value, after, hvalues, hvalue, rfl⟩
      cases texts with
      | nil =>
        obtain ⟨rfl, -⟩ := List.cons.inj hvalues
        exact .inl ⟨hvalue, rfl⟩
      | cons text texts =>
        obtain ⟨rfl, rfl⟩ := List.cons.inj hvalues
        refine .inr ⟨text, rfl, bind_eq_error.2 (.inl ?_)⟩
        exact (ih fun index => place (index + 1)).2 ⟨texts, value, after, rfl, hvalue, rfl⟩

end Located

namespace ProfileBindings

/-! ## Faults -/

/-- What is wrong with an entry that stands behind others, and how it is reported: under the
key of the profile it is neither null nor a text; under another key it is not a list, or one
of its elements is not a text, or the key has an entry already. -/
inductive Fault (location : Location) (before : List (String × Json)) :
    String × Json → ReadError → Prop where
  | profile {key : String} {value : Json} (hkey : sameFolded key profileKey = true)
      (hnull : value.kind ≠ .null) (hvalue : value.kind ≠ .string) :
      Fault location before (key, value)
        (.mismatch (location ++ [.property profileKey]) .string value.kind)
  | paths {key : String} {value : Json} (hkey : sameFolded key profileKey = false)
      (hvalue : value.kind ≠ .array) :
      Fault location before (key, value)
        (.mismatch (location ++ [.property key]) .array value.kind)
  | path {key : String} {paths : List String} {value : Json} {after : List Json}
      (hkey : sameFolded key profileKey = false) (hvalue : value.kind ≠ .string) :
      Fault location before (key, .array (paths.map .string ++ value :: after))
        (.mismatch (location ++ [.property key, .element paths.length]) .string value.kind)
  | repeated {key : String} {paths : List String} (hkey : sameFolded key profileKey = false)
      (hbound : key ∈ (actionEntries before).map Prod.fst) :
      Fault location before (key, .array (paths.map .string))
        (.boundTwice (location ++ [.property key]) key)

/-- The error of the first entry at fault. -/
def FirstFault (location : Location) (entries : List (String × Json)) (error : ReadError) :
    Prop :=
  ∃ before entry after, entries = before ++ entry :: after ∧
    Fault location before entry error ∧
    ∀ earlier other later, before = earlier ++ other :: later →
      ∀ error, ¬ Fault location earlier other error

/-- The last of the values under the key of the profile is a text with characters. -/
def Named (entries : List (String × Json)) : Prop :=
  ∃ profile, (valuesOf entries profileKey).getLast? = some (.string profile) ∧ profile ≠ ""

/-- What the entries have to be like: texts or null under the key of the profile, the last of
them a text with characters; lists of texts under all other keys, which are distinct. -/
structure Admissible (entries : List (String × Json)) : Prop where
  names : ∀ value ∈ valuesOf entries profileKey, value = .null ∨ ∃ text, value = .string text
  named : Named entries
  paths : ∀ entry ∈ actionEntries entries,
    ∃ paths : List String, entry.2 = .array (paths.map .string)
  distinct : ((actionEntries entries).map Prod.fst).Nodup

/-! ## One entry -/

section
variable {location : Location} {value : Json} {error : ReadError} {draft : Draft}

/-- Neither null nor a text names a profile. -/
theorem profileOf_eq_error :
    profileOf ⟨value, location⟩ = .error error ↔
      value.kind ≠ .null ∧ value.kind ≠ .string ∧
        error = .mismatch location .string value.kind := by
  cases value <;>
    simp [profileOf, Located.string, Located.mismatch, Except.map, Json.kind, eq_comm]

/-- Paths are refused as no array, or for the first element that is no text. -/
theorem pathsOf_eq_error :
    pathsOf ⟨value, location⟩ = .error error ↔
      value.kind ≠ .array ∧ error = .mismatch location .array value.kind ∨
      ∃ (paths : List String) (other : Json) (after : List Json),
        value = .array (paths.map .string ++ other :: after) ∧ other.kind ≠ .string ∧
          error = .mismatch (location ++ [.element paths.length]) .string other.kind := by
  rw [pathsOf, bind_eq_error, Located.elements_eq_error]
  apply or_congr_right
  constructor
  · rintro ⟨nodes, hnodes, hpaths⟩
    obtain ⟨values, hvalue, rfl⟩ := Located.elements_eq_ok.1 hnodes
    obtain ⟨paths, other, after, rfl, hother⟩ :=
      (Located.mapM_string_eq_error (fun index => location ++ [.element index]) values).1 hpaths
    exact ⟨paths, other, after, hvalue, hother⟩
  · rintro ⟨paths, other, after, rfl, hother⟩
    refine ⟨_, Located.elements_eq_ok.2 ⟨_, rfl, rfl⟩, ?_⟩
    exact (Located.mapM_string_eq_error (fun index => location ++ [.element index]) _).2
      ⟨paths, other, after, rfl, hother⟩

/-- An entry is refused when it is at fault behind the entries that the draft comes from. -/
theorem Draft.add_eq_error {before : List (String × Json)} {entry : String × Json}
    (hbound : draft.bindings.actions = (actionEntries before).map Prod.fst) (document : Json) :
    draft.add ⟨document, location⟩ entry = .error error ↔ Fault location before entry error := by
  obtain ⟨key, value⟩ := entry
  -- an entry names the profile or is for an action, and each kind has faults of its own
  by_cases hkey : sameFolded key profileKey = true
  · rw [Draft.add, if_pos hkey, bind_eq_error]
    constructor
    · rintro (h | ⟨_, -, hpure⟩)
      · obtain ⟨hnull, hvalue, rfl⟩ := profileOf_eq_error.1 h
        exact .profile hkey hnull hvalue
      · cases hpure
    · intro h
      cases h with
      | profile _ hnull hvalue => exact .inl (profileOf_eq_error.2 ⟨hnull, hvalue, rfl⟩)
      | paths hother | path hother | repeated hother =>
        rw [hkey] at hother
        cases hother
  · have hkey : sameFolded key profileKey = false := Bool.eq_false_iff.2 hkey
    rw [Draft.add, if_neg (by simp [hkey]), bind_eq_error]
    constructor
    · rintro (h | ⟨paths, hpaths, hrest⟩)
      · rcases pathsOf_eq_error.1 h with ⟨hvalue, rfl⟩ | ⟨paths, other, after, rfl, hother, rfl⟩
        · exact .paths hkey hvalue
        · rw [List.append_assoc]
          exact .path hkey hother
      · -- the entry has paths, so its key has an entry already
        have hvalue : value = .array (paths.map .string) := (reads_pathsOf _ paths).1 hpaths
        split at hrest
        case isTrue hmem =>
          rcases Except.error.inj hrest with rfl
          rw [hvalue]
          exact .repeated hkey (hbound ▸ hmem)
        case isFalse => cases hrest
    · intro h
      cases h with
      | profile hother =>
        rw [hkey] at hother
        cases hother
      | paths _ hvalue => exact .inl (pathsOf_eq_error.2 (.inl ⟨hvalue, rfl⟩))
      | @path _ paths other after _ hother =>
        refine .inl (pathsOf_eq_error.2 (.inr ⟨paths, other, after, rfl, hother, ?_⟩))
        rw [List.append_assoc]
        rfl
      | @repeated _ paths _ hmem =>
        have hmem : key ∈ draft.bindings.actions := hbound ▸ hmem
        exact .inr ⟨paths, (reads_pathsOf _ paths).2 rfl, dif_pos hmem⟩

end

/-! ## All entries -/

section
variable {location : Location} {entries : List (String × Json)} {error : ReadError}

/-- The actions of a draft are the keys of the entries it comes from. -/
theorem Draft.actions_of_foldlM {node : Located} {draft : Draft}
    (h : entries.foldlM (Draft.add node) Draft.empty = .ok draft) :
    draft.bindings.actions = (actionEntries entries).map Prod.fst := by
  obtain ⟨names, bound, -, hbound, hextends⟩ := Draft.foldlM_add_eq_ok.1 h
  have hentries : draft.bindings.entries = bound := hextends.entries
  rw [hbound, Bindings.actions, hentries, List.map_map]
  rfl

/-- No entry is at fault among those that are read. -/
theorem not_fault_of_foldlM {document : Json} {draft : Draft}
    (h : entries.foldlM (Draft.add ⟨document, location⟩) Draft.empty = .ok draft)
    {before after : List (String × Json)} {entry : String × Json}
    (hentries : entries = before ++ entry :: after) : ¬ Fault location before entry error := by
  intro hfault
  rw [hentries, List.foldlM_append] at h
  obtain ⟨reached, hreached, hrest⟩ := bind_eq_ok.1 h
  rw [List.foldlM_cons] at hrest
  obtain ⟨next, hadd, -⟩ := bind_eq_ok.1 hrest
  have hactions := Draft.actions_of_foldlM hreached
  rw [(Draft.add_eq_error hactions document).2 hfault] at hadd
  cases hadd

/-- The entries are refused with the error of the first entry at fault. -/
theorem foldlM_add_eq_error (document : Json) :
    entries.foldlM (Draft.add ⟨document, location⟩) Draft.empty = .error error ↔
      FirstFault location entries error := by
  rw [foldlM_eq_error]
  constructor
  · rintro ⟨before, entry, after, draft, hentries, hbefore, hentry⟩
    have hactions := Draft.actions_of_foldlM hbefore
    refine ⟨before, entry, after, hentries, (Draft.add_eq_error hactions document).1 hentry, ?_⟩
    intro earlier other later hsplit error
    exact not_fault_of_foldlM hbefore hsplit
  · rintro ⟨before, entry, after, hentries, hfault, hfirst⟩
    cases hbefore : before.foldlM (Draft.add ⟨document, location⟩) Draft.empty with
    | ok draft =>
      have hactions := Draft.actions_of_foldlM hbefore
      exact ⟨before, entry, after, draft, hentries, hbefore,
        (Draft.add_eq_error hactions document).2 hfault⟩
    | error other =>
      -- a failure in front of the entry would be at an earlier fault
      obtain ⟨earlier, bad, later, draft, hsplit, hearlier, hbad⟩ := foldlM_eq_error.1 hbefore
      have hactions := Draft.actions_of_foldlM hearlier
      exact absurd ((Draft.add_eq_error hactions document).1 hbad)
        (hfirst earlier bad later hsplit other)

/-- A draft has the last name of the entries it comes from, or none. -/
theorem Draft.profile_of_foldlM {node : Located} {draft : Draft}
    (h : entries.foldlM (Draft.add node) Draft.empty = .ok draft) :
    Named entries ↔ ∃ profile, draft.profile = some profile ∧ profile ≠ "" := by
  obtain ⟨names, bound, hnames, -, hextends⟩ := Draft.foldlM_add_eq_ok.1 h
  have hprofile : draft.profile = names.getLast?.getD none := hextends.profile
  rw [Named, hnames, List.getLast?_map, hprofile]
  cases names.getLast? with
  | none => simp
  | some name => cases name <;> simp [profileValue]

/-- A draft without a name, or with an empty one, lacks the profile. -/
theorem Draft.finish_eq_error {draft : Draft} {node : Located} :
    draft.finish node = .error error ↔
      (¬ ∃ profile, draft.profile = some profile ∧ profile ≠ "") ∧
        error = .missing node.location profileKey := by
  unfold Draft.finish
  cases draft.profile with
  | none => simp [eq_comm]
  | some profile => by_cases hempty : profile = "" <;> simp [hempty, eq_comm]

/-- The object is refused because of the first fault, or because the profile has no name. -/
theorem ofNode_eq_error :
    ofNode ⟨.object entries, location⟩ = .error error ↔
      FirstFault location entries error ∨
        (∀ other, ¬ FirstFault location entries other) ∧ ¬ Named entries ∧
          error = .missing location profileKey := by
  have hofNode : ofNode ⟨.object entries, location⟩ =
      entries.foldlM (Draft.add ⟨.object entries, location⟩) Draft.empty >>=
        fun draft => draft.finish ⟨.object entries, location⟩ := rfl
  rw [hofNode, bind_eq_error, foldlM_add_eq_error]
  apply or_congr_right
  constructor
  · rintro ⟨draft, hdraft, hfinish⟩
    obtain ⟨hname, rfl⟩ := Draft.finish_eq_error.1 hfinish
    refine ⟨fun other hfault => ?_, fun hnamed => hname ((Draft.profile_of_foldlM hdraft).1 hnamed),
      rfl⟩
    rw [(foldlM_add_eq_error (.object entries)).2 hfault] at hdraft
    cases hdraft
  · rintro ⟨hfaultless, hnamed, rfl⟩
    -- without a fault the entries are read to their end, and the name is missed there
    cases hdraft : entries.foldlM (Draft.add ⟨.object entries, location⟩) Draft.empty with
    | error other => exact absurd ((foldlM_add_eq_error _).1 hdraft) (hfaultless other)
    | ok draft =>
      refine ⟨draft, rfl, Draft.finish_eq_error.2 ⟨?_, rfl⟩⟩
      exact fun hname => hnamed ((Draft.profile_of_foldlM hdraft).2 hname)

/-! ## The object -/

/-- The object is read when its entries are admissible. -/
theorem exists_ofNode_eq_ok :
    (∃ suggested, ofNode ⟨.object entries, location⟩ = .ok suggested) ↔ Admissible entries := by
  constructor
  · rintro ⟨suggested, h⟩
    obtain ⟨read, names, hread, hnames, hlast, hne, hactions⟩ := (reads_ofNode _ _).1 h
    rcases Json.object.inj hread with rfl
    refine ⟨fun value hvalue => ?_, ⟨suggested.profile, ?_, hne⟩, fun entry hentry => ?_, ?_⟩
    · rw [hnames] at hvalue
      obtain ⟨name, -, rfl⟩ := List.mem_map.1 hvalue
      cases name with
      | none => exact .inl rfl
      | some text => exact .inr ⟨text, rfl⟩
    · rw [hnames, List.getLast?_map, hlast]
      rfl
    · rw [hactions] at hentry
      obtain ⟨binding, -, rfl⟩ := List.mem_map.1 hentry
      exact ⟨binding.2, rfl⟩
    · rw [hactions, List.map_map]
      exact suggested.bindings.nodup_actions
  · rintro ⟨hnames, ⟨profile, hlast, hne⟩, hpaths, hdistinct⟩
    have hnames : valuesOf entries profileKey ∈ Set.range (List.map profileValue) := by
      rw [Set.range_list_map]
      intro value hvalue
      rcases hnames value hvalue with rfl | ⟨text, rfl⟩
      · exact ⟨none, rfl⟩
      · exact ⟨some text, rfl⟩
    have hbound : actionEntries entries ∈ Set.range (List.map Bindings.entry) := by
      rw [Set.range_list_map]
      intro entry hentry
      obtain ⟨paths, hvalue⟩ := hpaths entry hentry
      exact ⟨(entry.1, paths), Prod.ext rfl hvalue.symm⟩
    obtain ⟨names, hnames⟩ := hnames
    obtain ⟨bound, hbound⟩ := hbound
    rw [← hbound, List.map_map] at hdistinct
    refine ⟨⟨profile, ⟨bound, hdistinct⟩⟩, (reads_ofNode _ _).2
      ⟨entries, names, rfl, hnames.symm, ?_, hne, hbound.symm⟩⟩
    -- the last value is a text, so it is not the null of a name that is left out
    rw [← hnames, List.getLast?_map] at hlast
    obtain ⟨name, hname, hvalue⟩ := Option.map_eq_some_iff.1 hlast
    cases name with
    | none => cases hvalue
    | some text => rw [hname, Json.string.inj hvalue]

/-- What is read is the last name of the profile and every other entry, in order. -/
theorem entries_of_ofNode {suggested : ProfileBindings}
    (h : ofNode ⟨.object entries, location⟩ = .ok suggested) :
    (valuesOf entries profileKey).getLast? = some (.string suggested.profile) ∧
      suggested.bindings.entries.map Bindings.entry = actionEntries entries := by
  obtain ⟨read, names, hread, hnames, hlast, -, hactions⟩ := (reads_ofNode _ _).1 h
  rcases Json.object.inj hread with rfl
  refine ⟨?_, hactions.symm⟩
  rw [hnames, List.getLast?_map, hlast]
  rfl

/-- A fault is reported as malformed input at a place inside of the object. -/
theorem Fault.message {before : List (String × Json)} {entry : String × Json}
    (h : Fault location before entry error) :
    ∃ place text, error.message = ReadError.malformed (location ++ place).describe text := by
  cases h with
  | profile => exact ⟨_, _, rfl⟩
  | paths => exact ⟨_, _, rfl⟩
  | path => exact ⟨_, _, rfl⟩
  | repeated => exact ⟨_, _, rfl⟩

end

/-- Bindings are read without a loss. The object of a profile's bindings is read exactly when
its entries are admissible, and then into the last name of the profile and all other entries,
in order. Otherwise the first entry at fault is reported as malformed input, and the missing
name of the profile if there is no fault. -/
theorem ofNode_object (location : Location) (entries : List (String × Json)) :
    ((∃ suggested, ofNode ⟨.object entries, location⟩ = .ok suggested) ↔ Admissible entries) ∧
    (∀ suggested, ofNode ⟨.object entries, location⟩ = .ok suggested →
      (valuesOf entries profileKey).getLast? = some (.string suggested.profile) ∧
      suggested.bindings.entries.map Bindings.entry = actionEntries entries ∧
      suggested.bindings.entries.length = (actionEntries entries).length) ∧
    (∀ error, ofNode ⟨.object entries, location⟩ = .error error ↔
      FirstFault location entries error ∨
        (∀ other, ¬ FirstFault location entries other) ∧ ¬ Named entries ∧
          error = .missing location profileKey) ∧
    ∀ error, FirstFault location entries error →
      ∃ place text, error.message = ReadError.malformed (location ++ place).describe text := by
  refine ⟨exists_ofNode_eq_ok, fun suggested h => ?_, fun error => ofNode_eq_error, ?_⟩
  · obtain ⟨hprofile, hentries⟩ := entries_of_ofNode h
    refine ⟨hprofile, hentries, ?_⟩
    rw [← hentries, List.length_map]
  · rintro error ⟨before, entry, after, -, hfault, -⟩
    exact hfault.message

/-- Two spellings of one action are two entries, and the last name of the profile counts; the
second entry of an action is at fault, in front of the entry that is no list. -/
theorem ofNode_object_repeatedKey :
    (∃ suggested, ofNode ⟨.object [("interactionProfile", .null),
        ("grip", .array [.string "/hand", .string "/other"]), ("Grip", .array []),
        ("InteractionProfile", .string "/simple")], []⟩ = .ok suggested ∧
      suggested.profile = "/simple" ∧
      suggested.bindings.entries.map Bindings.entry =
        [("grip", .array [.string "/hand", .string "/other"]), ("Grip", .array [])]) ∧
    FirstFault [] [("grip", .array []), ("grip", .array []), ("aim", .null)]
      (.boundTwice [.property "grip"] "grip") := by
  constructor
  · let suggested : ProfileBindings :=
      ⟨"/simple", ⟨[("grip", ["/hand", "/other"]), ("Grip", [])], by decide⟩⟩
    have hsuggested : ofNode ⟨.object [("interactionProfile", .null),
        ("grip", .array [.string "/hand", .string "/other"]), ("Grip", .array []),
        ("InteractionProfile", .string "/simple")], []⟩ = .ok suggested := by
      decide +kernel
    obtain ⟨hprofile, hbindings, -⟩ := (ofNode_object [] _).2.1 suggested hsuggested
    exact ⟨suggested, hsuggested, (Json.string.inj (Option.some.inj hprofile)).symm, hbindings⟩
  -- the key is repeated in front of the value that is no array
  · have herror : ofNode ⟨.object [("grip", .array []), ("grip", .array []), ("aim", .null)], []⟩ =
        .error (.boundTwice [.property "grip"] "grip") := by
      decide +kernel
    rcases ((ofNode_object [] _).2.2.1 _).1 herror with hfault | ⟨-, -, hmissing⟩
    · exact hfault
    · cases hmissing

end ProfileBindings
end XrManifest
