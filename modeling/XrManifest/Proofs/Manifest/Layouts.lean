import XrManifest.Manifest.Reading
import XrManifest.Proofs.Manifest.Properties
import XrManifest.Proofs.Outcomes

/-!
# Layouts of manifests

The documents that write a manifest by its schema: property names in any case and in any
order, properties with other names anywhere but among the bindings of a profile, and each
name of the schema at most once. `Manifest.settled` takes a document in which names are
repeated to the one that is left when the overridden properties are gone.
-/

namespace XrManifest

open XrManifest.Text

/-- The text is one of the spellings of the kind of action, in some case. -/
def ActionType.SpelledBy (type : ActionType) (text : String) : Prop :=
  ∃ name, (name, type) ∈ table ∧ sameFolded name text = true

/-- The only property with this name is an array of documents that are, in order,
`related` to the items. -/
def Lists {α : Type} (entries : List (String × Json)) (name : String)
    (related : α → Json → Prop) (items : List α) : Prop :=
  ∃ elements, valuesOf entries name = [.array elements] ∧ List.Forall₂ related items elements

/-! ## Layouts -/

structure Action.Fields (action : Action) (entries : List (String × Json)) : Prop where
  name : valuesOf entries "name" = [.string action.name]
  localizedName : valuesOf entries "localizedName" = [.string action.localizedName]
  type : ∃ text, action.type.SpelledBy text ∧ valuesOf entries "type" = [.string text]
  perHand : valuesOf entries "useSubactionPaths" = [.boolean action.perHand] ∨
    action.perHand = false ∧ valuesOf entries "useSubactionPaths" = []

def Action.LaidOut (action : Action) (document : Json) : Prop :=
  ∃ entries, document = .object entries ∧ action.Fields entries

/-- The entry that lists the paths suggested for an action. -/
def Bindings.entry (binding : String × List String) : String × Json :=
  (binding.1, .array (binding.2.map .string))

/-- The document lays the bindings of a profile out: the entry that names the profile
stands anywhere among the entries of the actions. -/
def ProfileBindings.LaidOut (suggested : ProfileBindings) (document : Json) : Prop :=
  ∃ before key after,
    document = .object (before ++ (key, .string suggested.profile) :: after) ∧
      sameFolded key profileKey = true ∧
      before ++ after = suggested.bindings.entries.map Bindings.entry

/-- The entries have the properties of an action set, whose actions and profiles are
written by documents that are related to them. -/
structure ActionSet.Fields (set : ActionSet) (action : Action → Json → Prop)
    (profile : ProfileBindings → Json → Prop) (entries : List (String × Json)) : Prop where
  name : valuesOf entries "name" = [.string set.name]
  localizedName : valuesOf entries "localizedName" = [.string set.localizedName]
  priority : valuesOf entries "priority" = [.number (.integer set.priority.toInt)]
  actions : Lists entries "actions" action set.actions
  profiles : Lists entries "suggestedBindings" profile set.profiles

def ActionSet.LaidOut (set : ActionSet) (document : Json) : Prop :=
  ∃ entries, document = .object entries ∧
    set.Fields Action.LaidOut ProfileBindings.LaidOut entries

def Manifest.LaidOut (manifest : Manifest) (document : Json) : Prop :=
  ∃ entries, document = .object entries ∧
    Lists entries "actionSets" ActionSet.LaidOut manifest.actionSets

/-- The bindings of a profile can be written: the profile has a name, and no action is
named like the property that names the profile. -/
def ProfileBindings.Expressible (suggested : ProfileBindings) : Prop :=
  suggested.profile ≠ "" ∧
    ∀ action ∈ suggested.bindings.actions, sameFolded action profileKey = false

/-- A manifest can be written when the bindings of all its profiles can. -/
def Manifest.Expressible (manifest : Manifest) : Prop :=
  ∀ set ∈ manifest.actionSets, ∀ suggested ∈ set.profiles, suggested.Expressible

/-! ## Settled documents -/

def Json.mapEntries (change : List (String × Json) → List (String × Json)) : Json → Json
  | .object entries => .object (change entries)
  | document => document

def Json.mapElements (change : Json → Json) : Json → Json
  | .array elements => .array (elements.map change)
  | document => document

/-- The document of an action without the properties that a later one overrides. -/
def Action.settled : Json → Json :=
  Json.mapEntries latest

/-- Among the bindings of a profile only the name of the profile can be overridden. -/
def ProfileBindings.overrides (later earlier : String) : Bool :=
  sameFolded later profileKey && sameFolded earlier profileKey

/-- The document of the bindings of a profile with one name for the profile, the last. -/
def ProfileBindings.settled : Json → Json :=
  Json.mapEntries (withoutOverridden overrides)

/-- The document of an action set without the properties that a later one overrides. -/
def ActionSet.settled : Json → Json :=
  Json.mapEntries fun entries =>
    mapProperty "suggestedBindings" (Json.mapElements ProfileBindings.settled)
      (mapProperty "actions" (Json.mapElements Action.settled) (latest entries))

/-- The document of a manifest without the properties that a later one overrides. -/
def Manifest.settled : Json → Json :=
  Json.mapEntries fun entries =>
    mapProperty "actionSets" (Json.mapElements ActionSet.settled) (latest entries)

/-- Only objects become objects when their entries change. -/
theorem mapEntries_eq_object {change : List (String × Json) → List (String × Json)}
    {document : Json} {changed : List (String × Json)} :
    Json.mapEntries change document = .object changed ↔
      ∃ entries, document = .object entries ∧ change entries = changed := by
  cases document <;> simp [Json.mapEntries]

/-! ## Lists of documents -/

theorem Lists.imp {α : Type} {entries : List (String × Json)} {name : String}
    {related related' : α → Json → Prop} {items : List α}
    (h : ∀ item ∈ items, ∀ document, related item document → related' item document) :
    Lists entries name related items → Lists entries name related' items := by
  rintro ⟨elements, hvalues, hrelated⟩
  exact ⟨elements, hvalues,
    forall₂_imp_of_mem hrelated fun item hitem document _ => h item hitem document⟩

/-- What holds of every item with a document holds of all items of a list. -/
theorem Lists.forall_mem {α : Type} {entries : List (String × Json)} {name : String}
    {related : α → Json → Prop} {items : List α} {P : α → Prop}
    (h : ∀ item document, related item document → P item)
    (hlists : Lists entries name related items) : ∀ item ∈ items, P item := by
  rcases hlists with ⟨elements, -, hrelated⟩
  induction hrelated with
  | nil => simp
  | cons hhead _ ih => exact List.forall_mem_cons.2 ⟨h _ _ hhead, ih⟩

/-- A list written once is not overridden. -/
theorem Lists.latest {α : Type} {entries : List (String × Json)} {name : String}
    {related : α → Json → Prop} {items : List α} (h : Lists entries name related items) :
    Lists (latest entries) name related items := by
  rcases h with ⟨elements, hvalues, hrelated⟩
  exact ⟨elements, valuesOf_latest_singleton hvalues, hrelated⟩

/-- Changing the elements of a list changes the documents of its items. -/
theorem Lists.mapProperty {α : Type} {entries : List (String × Json)} {name : String}
    {related : α → Json → Prop} {change : Json → Json} {items : List α}
    (h : Lists entries name (fun item document => related item (change document)) items) :
    Lists (mapProperty name (Json.mapElements change) entries) name related items := by
  rcases h with ⟨elements, hvalues, hrelated⟩
  refine ⟨elements.map change, ?_, List.forall₂_map_right_iff.2 hrelated⟩
  rw [valuesOf_mapProperty, hvalues]
  rfl

/-- Changing a property leaves the lists under other names alone. -/
theorem Lists.mapProperty_of_ne {α : Type} {entries : List (String × Json)}
    {name other : String} {related : α → Json → Prop} {change : Json → Json} {items : List α}
    (hne : sameFolded other name = false) (h : Lists entries other related items) :
    Lists (XrManifest.mapProperty name change entries) other related items := by
  rcases h with ⟨elements, hvalues, hrelated⟩
  exact ⟨elements, (valuesOf_mapProperty_of_ne hne change entries).trans hvalues, hrelated⟩

end XrManifest
