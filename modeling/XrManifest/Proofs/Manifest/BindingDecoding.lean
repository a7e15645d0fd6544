import XrManifest.Proofs.Manifest.Decoding

/-!
# Reading the bindings of a profile

The entries of the object are read one after another into a draft. The main statement is
`Draft.foldlM_add_eq_ok`: the draft ends with the last name of a profile and with the
entries of the actions, in order.
-/

namespace XrManifest.ProfileBindings

open XrManifest.Text

/-- The entries whose keys name actions. -/
def actionEntries (entries : List (String × Json)) : List (String × Json) :=
  entries.filter fun entry => !sameFolded entry.1 profileKey

/-- The value that names a profile, or no profile. -/
def profileValue : Option String → Json
  | none => .null
  | some profile => .string profile

/-- The bindings of a profile can be read from the document: of the values that name a
profile, all of them names or null, the last is its name, and the other entries are its
bindings. -/
def ReadFrom (suggested : ProfileBindings) (document : Json) : Prop :=
  ∃ (entries : List (String × Json)) (names : List (Option String)),
    document = .object entries ∧
    valuesOf entries profileKey = names.map profileValue ∧
    names.getLast? = some (some suggested.profile) ∧ suggested.profile ≠ "" ∧
    actionEntries entries = suggested.bindings.entries.map Bindings.entry

/-! ## Entries -/

/-- A profile is named by a text, or by null for none. -/
theorem reads_profileOf :
    Located.Reads profileOf fun profile value => value = profileValue profile := by
  intro node profile
  cases hvalue : node.value <;> cases profile <;>
    simp [profileOf, hvalue, profileValue, Located.string, Except.map]

/-- The paths for an action are an array of texts. -/
theorem reads_pathsOf :
    Located.Reads pathsOf fun paths value => value = .array (paths.map .string) := by
  intro node paths
  have hread := Located.reads_elements Located.reads_string node paths
  have hpaths : ∀ values, List.Forall₂ (fun text value => value = Json.string text) paths values ↔
      paths.map .string = values := by
    intro values
    rw [← List.forall₂_eq_eq_eq, List.forall₂_map_left_iff]
    simp only [eq_comm]
  rw [pathsOf, hread]
  simp [hpaths, eq_comm]

variable {node : Located} {draft draft' : Draft} {key : String} {value : Json}

/-- An entry under the key of the profile changes the profile of the draft only. -/
theorem Draft.add_profile (hkey : sameFolded key profileKey = true) :
    draft.add node (key, value) = .ok draft' ↔
      ∃ profile, value = profileValue profile ∧ draft' = { draft with profile } := by
  have hread := reads_profileOf (node.child profileKey value)
  rw [Draft.add, if_pos hkey]
  constructor
  · intro h
    rcases bind_eq_ok.1 h with ⟨profile, hprofile, h⟩
    exact ⟨profile, (hread profile).1 hprofile, (Except.ok.inj h).symm⟩
  · rintro ⟨profile, hprofile, rfl⟩
    exact bind_eq_ok.2 ⟨profile, (hread profile).2 hprofile, rfl⟩

/-- Every other entry adds to the bindings, under a name that is new. -/
theorem Draft.add_action (hkey : sameFolded key profileKey = false) :
    draft.add node (key, value) = .ok draft' ↔
      ∃ paths, value = .array (paths.map .string) ∧ ∃ fresh : key ∉ draft.bindings.actions,
        draft' = { draft with bindings := draft.bindings.insert key paths fresh } := by
  have hread := reads_pathsOf (node.child key value)
  rw [Draft.add, if_neg (by simp [hkey])]
  constructor
  · intro h
    rcases bind_eq_ok.1 h with ⟨paths, hpaths, h⟩
    -- a key that has paths already is refused
    by_cases hbound : key ∈ draft.bindings.actions
    · rw [dif_pos hbound] at h
      cases h
    · rw [dif_neg hbound] at h
      exact ⟨paths, (hread paths).1 hpaths, hbound, (Except.ok.inj h).symm⟩
  · rintro ⟨paths, hpaths, fresh, rfl⟩
    refine bind_eq_ok.2 ⟨paths, (hread paths).2 hpaths, ?_⟩
    rw [dif_neg fresh]
    rfl

/-! ## All entries -/

/-- The second draft is the first with the last of the names, if there is one, and with the
bindings behind its own. -/
structure Draft.Extends (draft draft' : Draft) (names : List (Option String))
    (bound : List (String × List String)) : Prop where
  profile : draft'.profile = names.getLast?.getD draft.profile
  entries : draft'.bindings.entries = draft.bindings.entries ++ bound

theorem Draft.extends_nil : draft.Extends draft' [] [] ↔ draft = draft' := by
  constructor
  · intro h
    rcases draft with ⟨profile, ⟨entries, _⟩⟩
    rcases draft' with ⟨profile', ⟨entries', _⟩⟩
    have hprofile : profile' = profile := h.profile
    have hentries : entries' = entries := h.entries.trans (List.append_nil _)
    subst hprofile hentries
    rfl
  · rintro rfl
    exact ⟨rfl, (List.append_nil _).symm⟩

section
variable {names : List (Option String)} {bound : List (String × List String)}

/-- A name in front of others is overridden by them. -/
theorem Draft.extends_profile {profile : Option String} :
    Draft.Extends { draft with profile } draft' names bound ↔
      draft.Extends draft' (profile :: names) bound := by
  have hlast : (profile :: names).getLast?.getD draft.profile = names.getLast?.getD profile := by
    rw [List.getLast?_cons]
    rfl
  constructor
  · rintro ⟨hprofile, hentries⟩
    exact ⟨hprofile.trans hlast.symm, hentries⟩
  · rintro ⟨hprofile, hentries⟩
    exact ⟨hprofile.trans hlast, hentries⟩

/-- The bindings of an action stand in front of those that come later. -/
theorem Draft.extends_action {paths : List String} {fresh : key ∉ draft.bindings.actions} :
    Draft.Extends { draft with bindings := draft.bindings.insert key paths fresh } draft'
        names bound ↔
      draft.Extends draft' names ((key, paths) :: bound) := by
  have hinsert : (draft.bindings.insert key paths fresh).entries ++ bound =
      draft.bindings.entries ++ (key, paths) :: bound := List.append_assoc _ _ _
  constructor
  · rintro ⟨hprofile, hentries⟩
    exact ⟨hprofile, hentries.trans hinsert⟩
  · rintro ⟨hprofile, hentries⟩
    exact ⟨hprofile, hentries.trans hinsert.symm⟩

/-- The names in the second draft are distinct, so those it adds are new. -/
theorem Draft.Extends.fresh {paths : List String}
    (h : draft.Extends draft' names ((key, paths) :: bound)) :
    key ∉ draft.bindings.actions := by
  have hnodup := draft'.bindings.nodup_actions
  rw [h.entries, List.map_append, List.map_cons, List.nodup_append] at hnodup
  intro hmem
  exact hnodup.2.2 key hmem key (by simp) rfl

end

/-- Reading entries into a draft: the last of the names is the name of the profile, and the
entries of the actions come behind those that the draft has. -/
theorem Draft.foldlM_add_eq_ok {entries : List (String × Json)} :
    entries.foldlM (Draft.add node) draft = .ok draft' ↔
      ∃ names bound, valuesOf entries profileKey = names.map profileValue ∧
        actionEntries entries = bound.map Bindings.entry ∧ draft.Extends draft' names bound := by
  induction entries generalizing draft with
  | nil =>
    constructor
    · intro h
      exact ⟨[], [], rfl, rfl, extends_nil.2 (Except.ok.inj h)⟩
    · rintro ⟨names, bound, hnames, hbound, h⟩
      rcases List.map_eq_nil_iff.1 hnames.symm with rfl
      rcases List.map_eq_nil_iff.1 hbound.symm with rfl
      exact congrArg Except.ok (extends_nil.1 h)
  | cons entry entries ih =>
    rcases entry with ⟨key, value⟩
    rw [List.foldlM_cons, bind_eq_ok]
    by_cases hkey : sameFolded key profileKey = true
    · -- the entry names the profile
      have hactions : actionEntries ((key, value) :: entries) = actionEntries entries :=
        List.filter_cons_of_neg (by simp [hkey])
      rw [valuesOf_cons_of_same hkey, hactions]
      constructor
      · rintro ⟨next, hadd, hrest⟩
        rcases (Draft.add_profile hkey).1 hadd with ⟨profile, rfl, rfl⟩
        rcases ih.1 hrest with ⟨names, bound, hnames, hbound, h⟩
        exact ⟨profile :: names, bound, by rw [hnames]; rfl, hbound, extends_profile.1 h⟩
      · rintro ⟨names, bound, hnames, hbound, h⟩
        cases names with
        | nil => cases hnames
        | cons profile names =>
          rcases List.cons.inj hnames with ⟨hvalue, htail⟩
          exact ⟨_, (Draft.add_profile hkey).2 ⟨profile, hvalue, rfl⟩,
            ih.2 ⟨names, bound, htail, hbound, extends_profile.2 h⟩⟩
    · -- the entry is for an action
      have hkey : sameFolded key profileKey = false := Bool.eq_false_iff.2 hkey
      have hactions : actionEntries ((key, value) :: entries) =
          (key, value) :: actionEntries entries := List.filter_cons_of_pos (by simp [hkey])
      rw [valuesOf_cons_of_ne hkey, hactions]
      constructor
      · rintro ⟨next, hadd, hrest⟩
        rcases (Draft.add_action hkey).1 hadd with ⟨paths, rfl, fresh, rfl⟩
        rcases ih.1 hrest with ⟨names, bound, hnames, hbound, h⟩
        exact ⟨names, (key, paths) :: bound, hnames, by rw [hbound]; rfl, extends_action.1 h⟩
      · rintro ⟨names, bound, hnames, hbound, h⟩
        cases bound with
        | nil => cases hbound
        | cons binding bound =>
          rcases List.cons.inj hbound with ⟨hentry, htail⟩
          rcases Prod.mk.inj hentry with ⟨rfl, hvalue⟩
          exact ⟨_, (Draft.add_action hkey).2 ⟨binding.2, hvalue, h.fresh, rfl⟩,
            ih.2 ⟨names, bound, hnames, htail, extends_action.2 h⟩⟩

/-! ## The object -/

/-- A draft is finished once it has a name with characters. -/
theorem Draft.finish_eq_ok {suggested : ProfileBindings} :
    draft.finish node = .ok suggested ↔
      draft.profile = some suggested.profile ∧ suggested.profile ≠ "" ∧
        draft.bindings = suggested.bindings := by
  rcases draft with ⟨profile, bindings⟩
  rcases suggested with ⟨name, bound⟩
  unfold Draft.finish
  cases profile with
  | none => simp
  | some profile =>
    -- an empty name is as good as none
    by_cases hempty : profile = ""
    · simp_all
    · simp only [hempty, if_false, Except.ok.injEq, ProfileBindings.mk.injEq, Option.some.injEq]
      constructor
      · rintro ⟨rfl, rfl⟩
        exact ⟨rfl, hempty, rfl⟩
      · rintro ⟨rfl, -, rfl⟩
        exact ⟨rfl, rfl⟩

/-- The bindings of a profile are read from the documents from which they can be read. -/
theorem reads_ofNode : Located.Reads ofNode ReadFrom := by
  intro node suggested
  constructor
  · intro h
    rcases bind_eq_ok.1 h with ⟨entries, hentries, h⟩
    rcases bind_eq_ok.1 h with ⟨draft, hdraft, h⟩
    rcases Draft.finish_eq_ok.1 h with ⟨hname, hne, hbindings⟩
    rcases Draft.foldlM_add_eq_ok.1 hdraft with ⟨names, bound, hnames, hbound, hextends⟩
    refine ⟨entries, names, Located.entries_eq_ok.1 hentries, hnames, ?_, hne, ?_⟩
    · have hprofile := hextends.profile
      rw [hname] at hprofile
      -- the draft keeps the last of the names
      cases hlast : names.getLast? with
      | none =>
        rw [hlast] at hprofile
        cases hprofile
      | some last =>
        rw [hlast] at hprofile
        exact congrArg some hprofile.symm
    · rw [hbound, ← hbindings, hextends.entries]
      rfl
  · rintro ⟨entries, names, hentries, hnames, hlast, hne, hactions⟩
    refine bind_eq_ok.2 ⟨entries, Located.entries_eq_ok.2 hentries, ?_⟩
    refine bind_eq_ok.2 ⟨⟨some suggested.profile, suggested.bindings⟩, ?_,
      Draft.finish_eq_ok.2 ⟨rfl, hne, rfl⟩⟩
    refine Draft.foldlM_add_eq_ok.2 ⟨names, _, hnames, hactions, ?_, rfl⟩
    rw [hlast]
    rfl

/-! ## Layouts -/

/-- Entries that all name actions. -/
theorem actionEntries_eq_self {entries : List (String × Json)}
    (h : ∀ entry ∈ entries, sameFolded entry.1 profileKey = false) :
    actionEntries entries = entries ∧ valuesOf entries profileKey = [] := by
  constructor
  · exact List.filter_eq_self.2 fun entry hentry => by simp [h entry hentry]
  · rw [valuesOf, List.map_eq_nil_iff, List.filter_eq_nil_iff]
    exact fun entry hentry => by simp [h entry hentry]

/-- The entries of expressible bindings name actions. -/
theorem Expressible.forall_entry {suggested : ProfileBindings} (h : suggested.Expressible) :
    ∀ entry ∈ suggested.bindings.entries.map Bindings.entry,
      sameFolded entry.1 profileKey = false := by
  intro entry hentry
  rcases List.mem_map.1 hentry with ⟨binding, hbinding, rfl⟩
  exact h.2 binding.1 (List.mem_map.2 ⟨binding, hbinding, rfl⟩)

/-- Bindings are read from the documents that lay them out. -/
theorem readFrom_of_laidOut {suggested : ProfileBindings} {document : Json}
    (hexpressible : suggested.Expressible) (h : suggested.LaidOut document) :
    suggested.ReadFrom document := by
  rcases h with ⟨before, key, after, rfl, hkey, hentries⟩
  have hactions : ∀ entry ∈ before ++ after, sameFolded entry.1 profileKey = false := by
    rw [hentries]
    exact hexpressible.forall_entry
  have hbefore := actionEntries_eq_self fun entry h => hactions entry (List.mem_append_left _ h)
  have hafter := actionEntries_eq_self fun entry h => hactions entry (List.mem_append_right _ h)
  refine ⟨_, [some suggested.profile], rfl, ?_, rfl, hexpressible.1, ?_⟩
  -- no entry for an action names the profile, so there is one name
  · have hvalues : valuesOf before profileKey ++ Json.string suggested.profile ::
        valuesOf after profileKey = [.string suggested.profile] := by
      rw [hbefore.2, hafter.2]
      rfl
    simpa [valuesOf, hkey, profileValue] using hvalues
  · have hall : actionEntries before ++ actionEntries after = before ++ after := by
      rw [hbefore.1, hafter.1]
    rw [← hentries, ← hall]
    simp [actionEntries, hkey]

/-- Bindings that are read can be written, and the settled document lays them out. -/
theorem laidOut_of_readFrom {suggested : ProfileBindings} {document : Json}
    (h : suggested.ReadFrom document) :
    suggested.Expressible ∧ suggested.LaidOut (settled document) := by
  rcases h with ⟨entries, names, rfl, hnames, hlast, hne, hactions⟩
  -- an entry that is kept for an action does not name the profile
  have hexpressible : suggested.Expressible := by
    refine ⟨hne, fun action haction => ?_⟩
    rcases List.mem_map.1 haction with ⟨binding, hbinding, rfl⟩
    have hentry : Bindings.entry binding ∈ actionEntries entries := by
      rw [hactions]
      exact List.mem_map.2 ⟨binding, hbinding, rfl⟩
    simpa [Bindings.entry] using (List.mem_filter.1 hentry).2
  -- The settled entries have one name for the profile left, and all actions.
  have hprofile : (withoutOverridden overrides entries).filter
      (fun entry => sameFolded entry.1 profileKey) =
        (entries.filter fun entry => sameFolded entry.1 profileKey).getLast?.toList := by
    refine filter_withoutOverridden_last (fun later earlier h => ?_) entries
    rw [overrides, h, Bool.and_true]
  have hkept : actionEntries (withoutOverridden overrides entries) = actionEntries entries := by
    refine filter_withoutOverridden_all (fun later earlier h => ?_) entries
    have hearlier : sameFolded earlier.1 profileKey = false := by simpa using h
    rw [overrides, hearlier, Bool.and_false]
  -- the name that is left is the last one, which is the profile
  have hvalue : (valuesOf entries profileKey).getLast? = some (.string suggested.profile) := by
    rw [hnames, List.getLast?_map, hlast]
    rfl
  rw [valuesOf, List.getLast?_map] at hvalue
  rcases Option.map_eq_some_iff.1 hvalue with ⟨⟨key, value⟩, hentry, rfl⟩
  rw [hentry] at hprofile
  rcases List.filter_eq_cons_iff.1 hprofile with ⟨before, after, hsplit, hbefore, hkey, hafter⟩
  have hbefore : actionEntries before = before :=
    (actionEntries_eq_self fun entry h => Bool.eq_false_iff.2 (hbefore entry h)).1
  have hafter : actionEntries after = after :=
    (actionEntries_eq_self fun entry h =>
      Bool.eq_false_iff.2 (List.filter_eq_nil_iff.1 hafter entry h)).1
  refine ⟨hexpressible, before, key, after, ?_, hkey, ?_⟩
  · exact congrArg Json.object hsplit
  · rw [← hactions, ← hkept, hsplit]
    have hall : actionEntries before ++ actionEntries after = before ++ after := by
      rw [hbefore, hafter]
    rw [← hall]
    simp [actionEntries, hkey]

end XrManifest.ProfileBindings
