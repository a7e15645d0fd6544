import Mathlib
import XrManifest.Proofs.Manifest.Decoding

/-!
# The properties that count

Of an object of the schema only the last property of each name counts. `Manifest.Pruned`
relates a document to those that have nothing else: the last property of each name of the
schema, spelled as in the schema and in any order. The main statement is
`Manifest.ofJson_pruned`: all of them are read alike, with the same manifest or the same
error.
-/

namespace XrManifest

open XrManifest.Text

/-! ## Objects with the last properties only -/

/-- Objects are related by their entries, and any other document to itself. -/
inductive Json.ObjectRel (related : List (String × Json) → List (String × Json) → Prop) :
    Json → Json → Prop where
  | object {entries kept : List (String × Json)} (h : related entries kept) :
      ObjectRel related (.object entries) (.object kept)
  | other {document : Json} (h : document.kind ≠ .object) : ObjectRel related document document

/-- Arrays are related by their elements, and any other document to itself. -/
inductive Json.ArrayRel (related : Json → Json → Prop) : Json → Json → Prop where
  | array {elements kept : List Json} (h : List.Forall₂ related elements kept) :
      ArrayRel related (.array elements) (.array kept)
  | other {document : Json} (h : document.kind ≠ .array) : ArrayRel related document document

/-- The value of the last property whose name is `name` in some case. -/
def lastValue? (entries : List (String × Json)) (name : String) : Option Json :=
  (valuesOf entries name).getLast?

/-- The last match of each of the properties, spelled as the property. -/
def lastMatches (properties : List String) (entries : List (String × Json)) :
    List (String × Json) :=
  properties.filterMap fun name => (lastValue? entries name).map fun value => (name, value)

/-- The entries that are kept are the last matches of the properties, in any order. Their
values may be changed, as `change` allows for each property. -/
def KeepsLast (properties : List String) (change : String → Json → Json → Prop)
    (entries kept : List (String × Json)) : Prop :=
  ∃ chosen, List.Forall₂ (fun found entry => entry.1 = found.1 ∧ change found.1 found.2 entry.2)
    (lastMatches properties entries) chosen ∧ chosen.Perm kept

def Action.properties : List String := ["name", "localizedName", "type", "useSubactionPaths"]

/-- The document of an action and one that keeps its last properties. -/
def Action.Pruned : Json → Json → Prop :=
  Json.ObjectRel (KeepsLast properties fun _ => Eq)

def ActionSet.properties : List String :=
  ["name", "localizedName", "priority", "actions", "suggestedBindings"]

/-- The document of an action set and one that keeps its last properties and those of its
actions. Suggested bindings stay as they are. -/
def ActionSet.Pruned : Json → Json → Prop :=
  Json.ObjectRel (KeepsLast properties fun name =>
    if name = "actions" then Json.ArrayRel Action.Pruned else Eq)

def Manifest.properties : List String := ["actionSets"]

/-- The document of a manifest and one that keeps its last properties, those of its action
sets, and those of their actions. -/
def Manifest.Pruned : Json → Json → Prop :=
  Json.ObjectRel (KeepsLast properties fun _ => Json.ArrayRel ActionSet.Pruned)

/-! ## What is found in the entries that are kept -/

/-- The names differ in more than case. -/
def Distinguished (names : List String) : Prop :=
  names.Nodup ∧ ∀ name ∈ names, ∀ other ∈ names, sameFolded name other = true → name = other

instance (names : List String) : Decidable (Distinguished names) :=
  inferInstanceAs (Decidable (_ ∧ _))

section
variable {properties : List String} {entries kept : List (String × Json)} {name : String}

/-- Each property has one last match at most. -/
theorem valuesOf_lastMatches (hproperties : Distinguished properties) (hname : name ∈ properties) :
    valuesOf (lastMatches properties entries) name = (lastValue? entries name).toList := by
  -- the properties are taken one by one, and only `name` itself has a match of this name
  have hpart : ∀ names : List String, (∀ first ∈ names, first ∈ properties) → names.Nodup →
      valuesOf (lastMatches names entries) name =
        if name ∈ names then (lastValue? entries name).toList else [] := by
    intro names hnames hnodup
    induction names with
    | nil => rfl
    | cons first names ih =>
      obtain ⟨hfresh, hnodup⟩ := List.nodup_cons.1 hnodup
      have hrest := ih (fun other hother => hnames other (List.mem_cons_of_mem first hother)) hnodup
      rw [lastMatches, List.filterMap_cons]
      by_cases hsame : sameFolded first name = true
      · have heq : first = name :=
          hproperties.2 first (hnames first List.mem_cons_self) name hname hsame
        subst heq
        rw [if_neg hfresh] at hrest
        rw [if_pos List.mem_cons_self]
        cases lastValue? entries first with
        | none => exact hrest
        | some value =>
          exact (valuesOf_cons_of_same hsame value _).trans (congrArg (value :: ·) hrest)
      · have hother : sameFolded first name = false := Bool.eq_false_iff.2 hsame
        have hne : name ≠ first := by
          rintro rfl
          exact hsame (sameFolded_iff.2 rfl)
        simp only [List.mem_cons, hne, false_or]
        cases lastValue? entries first with
        | none => exact hrest
        | some value => exact (valuesOf_cons_of_ne hother value _).trans hrest
  rw [hpart properties (fun _ h => h) hproperties.1, if_pos hname]

/-- Where entries are related one by one, so are the values of one name. -/
theorem forall₂_valuesOf {change : String → Json → Json → Prop}
    {found chosen : List (String × Json)}
    (h : List.Forall₂ (fun found entry => entry.1 = found.1 ∧ change found.1 found.2 entry.2)
      found chosen)
    (hnames : ∀ entry ∈ found, sameFolded entry.1 name = true → entry.1 = name) :
    List.Forall₂ (change name) (valuesOf found name) (valuesOf chosen name) := by
  induction h with
  | nil => exact .nil
  | @cons entry other _ _ hstep _ ih =>
    obtain ⟨key, value⟩ := entry
    obtain ⟨key', value'⟩ := other
    obtain ⟨rfl, hchange⟩ : key' = key ∧ change key value value' := hstep
    have hrest := ih fun later hlater => hnames later (List.mem_cons_of_mem _ hlater)
    -- an entry for another property counts on neither side
    by_cases hsame : sameFolded key' name = true
    · have hkey : key' = name := hnames (key', value) List.mem_cons_self hsame
      rw [valuesOf_cons_of_same hsame, valuesOf_cons_of_same hsame]
      exact .cons (hkey ▸ hchange) hrest
    · have hother : sameFolded key' name = false := Bool.eq_false_iff.2 hsame
      rw [valuesOf_cons_of_ne hother, valuesOf_cons_of_ne hother]
      exact hrest

/-- The value of a property of the schema among the entries that are kept is the last one of
the entries, but for its change. -/
theorem KeepsLast.lastValue? {change : String → Json → Json → Prop}
    (h : KeepsLast properties change entries kept) (hproperties : Distinguished properties)
    (hname : name ∈ properties) :
    Option.Rel (change name) (lastValue? entries name) (XrManifest.lastValue? kept name) := by
  obtain ⟨chosen, hchosen, hperm⟩ := h
  have hnames : ∀ entry ∈ lastMatches properties entries,
      sameFolded entry.1 name = true → entry.1 = name := by
    intro entry hentry
    obtain ⟨first, hfirst, hfound⟩ := List.mem_filterMap.1 hentry
    obtain ⟨value, -, rfl⟩ := Option.map_eq_some_iff.1 hfound
    exact hproperties.2 first hfirst name hname
  have hvalues := forall₂_valuesOf hchosen hnames
  rw [valuesOf_lastMatches hproperties hname] at hvalues
  -- one value at most is left, so the order makes no difference
  have hkept : (valuesOf chosen name).Perm (valuesOf kept name) := (hperm.filter _).map _
  rw [XrManifest.lastValue?.eq_1 kept]
  cases hlast : XrManifest.lastValue? entries name with
  | none =>
    rw [hlast] at hvalues
    rw [List.forall₂_nil_left_iff.1 hvalues] at hkept
    rw [List.nil_perm.1 hkept]
    exact .none
  | some value =>
    rw [hlast] at hvalues
    obtain ⟨value', hchange, heq⟩ := forall₂_singleton_left_iff.1 hvalues
    rw [heq] at hkept
    rw [← List.singleton_perm.1 hkept]
    exact .some hchange

end

/-! ## Readers -/

namespace Located

variable {α β : Type}

/-- A reader makes no difference between related documents that stand at the same place. -/
def Agrees (read : Located → Except ReadError α) (related : Json → Json → Prop) : Prop :=
  ∀ value kept location, related value kept → read ⟨kept, location⟩ = read ⟨value, location⟩

theorem agrees_eq (read : Located → Except ReadError α) : Agrees read Eq := by
  rintro value _ location rfl
  rfl

/-- Readers that agree one after the other agree. -/
theorem Agrees.bind {read : Located → Except ReadError α} {related : Json → Json → Prop}
    {next : α → Located → Except ReadError β} (hread : Agrees read related)
    (hnext : ∀ a, Agrees (next a) related) :
    Agrees (fun node => read node >>= fun a => next a node) related := by
  intro value kept location h
  have hafter := fun a => hnext a value kept location h
  simp only [hread value kept location h, hafter]

/-- The elements of related arrays are read alike. -/
theorem agrees_elements {read : Located → Except ReadError α} {related : Json → Json → Prop}
    (hread : Agrees read related) :
    Agrees (fun node => node.elements >>= fun nodes => nodes.mapM read)
      (Json.ArrayRel related) := by
  rintro _ _ location (⟨h⟩ | -)
  case other => rfl
  case array elements kept =>
    -- by induction with the places, which move on from element to element
    have hplaces : ∀ place : Nat → Location,
        (kept.mapIdx fun index value => (⟨value, place index⟩ : Located)).mapM read =
          (elements.mapIdx fun index value => ⟨value, place index⟩).mapM read := by
      clear location
      induction h with
      | nil => exact fun place => rfl
      | cons hstep _ ih =>
        intro place
        rw [List.mapIdx_cons, List.mapIdx_cons, List.mapM_cons, List.mapM_cons,
          hread _ _ _ hstep, ih fun index => place (index + 1)]
    exact hplaces fun index => location ++ [.element index]

section
variable {properties : List String} {change : String → Json → Json → Prop} {name : String}

/-- A property is looked for from the end of its object. -/
theorem property?_object (entries : List (String × Json)) (location : Location) (name : String) :
    property? ⟨.object entries, location⟩ name =
      .ok ((lastValue? entries name).map fun value => ⟨value, location ++ [.property name]⟩) := by
  have hlast : lastValue? entries name = (lastFolded? entries name).map Prod.snd :=
    List.getLast?_map
  rw [hlast, Option.map_map]
  rfl

/-- What is read from a property, whether it is there or not, depends on the place of the
object and on the last of the entries with its name. -/
theorem agrees_property? (read : Location → Option Located → Except ReadError α)
    (hproperties : Distinguished properties) (hname : name ∈ properties)
    (hread : ∀ place, Agrees (fun node => read place (some node)) (change name)) :
    Agrees (fun node => node.property? name >>= read node.location)
      (Json.ObjectRel (KeepsLast properties change)) := by
  rintro _ _ location (⟨h⟩ | -)
  case other => rfl
  case object entries kept =>
    have hlast := h.lastValue? hproperties hname
    change (property? _ _ >>= read location) = (property? _ _ >>= read location)
    rw [property?_object, property?_object]
    generalize lastValue? entries name = found, lastValue? kept name = left at hlast
    cases hlast with
    | none => rfl
    | some hchange => exact hread location _ _ _ hchange

/-- A property that an object has to have is read alike, or is missing at the same place. -/
theorem agrees_property {read : Located → Except ReadError α}
    {next : α → Located → Except ReadError β}
    (hproperties : Distinguished properties) (hname : name ∈ properties)
    (hread : Agrees read (change name))
    (hnext : ∀ a, Agrees (next a) (Json.ObjectRel (KeepsLast properties change))) :
    Agrees (fun node => node.property name >>= fun found => read found >>= fun a => next a node)
      (Json.ObjectRel (KeepsLast properties change)) := by
  -- the property is looked up, and then it is there or not
  have hfound := agrees_property? (fun location found =>
    found.elim (throw (.missing location name)) read) hproperties hname fun _ => hread
  have hsplit : ∀ node : Located, (node.property name >>= read) =
      node.property? name >>= fun found =>
        found.elim (throw (.missing node.location name)) read := by
    intro node
    rw [property, bind_assoc]
    congr 1
    funext found
    cases found <;> rfl
  intro value kept location h
  have hafter := fun a => hnext a value kept location h
  have hboth := hfound value kept location h
  simp only [← bind_assoc, hsplit, hafter, hboth]

/-- A list that an object has to have is read alike when its elements are. -/
theorem agrees_property_list {read : Located → Except ReadError α}
    {next : List α → Located → Except ReadError β} {related : Json → Json → Prop}
    (hproperties : Distinguished properties) (hname : name ∈ properties)
    (hchange : change name = Json.ArrayRel related) (hread : Agrees read related)
    (hnext : ∀ as, Agrees (next as) (Json.ObjectRel (KeepsLast properties change))) :
    Agrees (fun node => node.property name >>= fun found =>
        found.elements >>= fun nodes => nodes.mapM read >>= fun as => next as node)
      (Json.ObjectRel (KeepsLast properties change)) := by
  have helements := hchange ▸ agrees_elements hread
  have hlist := agrees_property hproperties hname helements hnext
  simpa only [bind_assoc] using hlist

end

end Located

/-! ## Documents of the schema -/

open Located

/-- An action is read from its last properties. -/
theorem Action.agrees_ofNode : Agrees ofNode Pruned := by
  have hnames : Distinguished properties := by decide
  unfold ofNode Pruned
  refine agrees_property hnames (by decide) (agrees_eq _) fun name => ?_
  refine agrees_property hnames (by decide) (agrees_eq _) fun localizedName => ?_
  refine agrees_property hnames (by decide) (agrees_eq _) fun type => ?_
  have hperHand : "useSubactionPaths" ∈ properties := by decide
  -- what is left to read is one property, which need not be there
  exact agrees_property? (fun _ => _) hnames hperHand fun _ => agrees_eq _

/-- So is an action set, and its actions with it. -/
theorem ActionSet.agrees_ofNode : Agrees ofNode Pruned := by
  have hnames : Distinguished properties := by decide
  unfold ofNode Pruned
  refine agrees_property hnames (by decide) (agrees_eq _) fun name => ?_
  refine agrees_property hnames (by decide) (agrees_eq _) fun localizedName => ?_
  refine agrees_property hnames (by decide) (agrees_eq _) fun priority => ?_
  refine agrees_property_list hnames (by decide) rfl Action.agrees_ofNode fun actions => ?_
  refine agrees_property hnames (by decide) (agrees_eq _) fun suggestions => ?_
  exact fun _ _ _ _ => rfl

/-- A document and its pruned form have one result. -/
theorem Manifest.ofJson_of_pruned {document kept : Json} (h : Pruned document kept) :
    ofJson kept = ofJson document := by
  have hnames : Distinguished properties := by decide
  have hread : Agrees (fun node => node.property "actionSets" >>= fun found =>
      found.elements >>= fun nodes => nodes.mapM ActionSet.ofNode >>= fun actionSets =>
        pure (⟨actionSets⟩ : Manifest)) Pruned :=
    agrees_property_list hnames (by decide) rfl ActionSet.agrees_ofNode
      fun actionSets => fun _ _ _ _ => rfl
  exact hread document kept [] h

/-! ## Every document can be pruned -/

theorem exists_forall₂ {α β : Type} {R : α → β → Prop} (h : ∀ a, ∃ b, R a b) (as : List α) :
    ∃ bs, List.Forall₂ R as bs := by
  induction as with
  | nil => exact ⟨[], .nil⟩
  | cons a as ih =>
    obtain ⟨b, hb⟩ := h a
    obtain ⟨bs, hbs⟩ := ih
    exact ⟨b :: bs, .cons hb hbs⟩

theorem Json.exists_arrayRel {related : Json → Json → Prop}
    (h : ∀ value, ∃ kept, related value kept) (document : Json) :
    ∃ kept, ArrayRel related document kept := by
  by_cases hkind : document.kind = .array
  · cases document with
    | array elements =>
      obtain ⟨kept, hkept⟩ := exists_forall₂ h elements
      exact ⟨.array kept, .array hkept⟩
    | _ => cases hkind
  · exact ⟨document, .other hkind⟩

/-- Every object can be pruned, whatever happens to the values that are kept. -/
theorem exists_objectRel {properties : List String} {change : String → Json → Json → Prop}
    (h : ∀ name value, ∃ kept, change name value kept) (document : Json) :
    ∃ kept, Json.ObjectRel (KeepsLast properties change) document kept := by
  by_cases hkind : document.kind = .object
  · cases document with
    | object entries =>
      -- a value is chosen for each entry that is kept
      have hentry : ∀ found : String × Json, ∃ entry : String × Json,
          entry.1 = found.1 ∧ change found.1 found.2 entry.2 := by
        intro found
        obtain ⟨kept, hkept⟩ := h found.1 found.2
        exact ⟨(found.1, kept), rfl, hkept⟩
      obtain ⟨chosen, hchosen⟩ := exists_forall₂ hentry (lastMatches properties entries)
      exact ⟨.object chosen, .object ⟨chosen, hchosen, .refl chosen⟩⟩
    | _ => cases hkind
  · exact ⟨document, .other hkind⟩

/-- Every document has a pruned form. -/
theorem Manifest.exists_pruned (document : Json) : ∃ kept, Pruned document kept := by
  have hsame : ∀ value : Json, ∃ kept, value = kept := fun value => ⟨value, rfl⟩
  have haction : ∀ value, ∃ kept, Action.Pruned value kept := exists_objectRel fun _ => hsame
  have hset : ∀ value, ∃ kept, ActionSet.Pruned value kept := by
    refine exists_objectRel fun name value => ?_
    by_cases hname : name = "actions"
    · simpa only [if_pos hname] using Json.exists_arrayRel haction value
    · simpa only [if_neg hname] using hsame value
  exact exists_objectRel (fun _ => Json.exists_arrayRel hset) document

/-- Only the last property of each name counts. A document that keeps just these, under the
names of the schema and in any order, is read like the document itself: as the same manifest,
or with the same error at the same place. Every document has such documents. -/
theorem Manifest.ofJson_pruned (document : Json) :
    (∃ kept, Pruned document kept) ∧
      ∀ kept, Pruned document kept → ofJson kept = ofJson document :=
  ⟨exists_pruned document, fun _ h => ofJson_of_pruned h⟩

/-- An action whose kind is repeated in another case, under a root and in a set with other
properties of their own. The kind that is reported is the last one. -/
theorem Manifest.ofJson_pruned_repeatedType :
    ∃ document kept, Pruned document kept ∧
      ofJson document = .error (.unknownActionType [.property "actionSets", .element 0,
        .property "actions", .element 0, .property "type"] "grip") ∧
      ofJson kept = ofJson document := by
  let action : List (String × Json) := [("type", .string "float"), ("TYPE", .string "grip"),
    ("name", .string "grab"), ("localizedname", .string "Grab")]
  let set : List (String × Json) := [("NAME", .null), ("Name", .string "play"),
    ("localizedName", .string "Play"), ("priority", .number (.integer 0)), ("note", .null),
    ("Actions", .array [.object action]), ("suggestedBindings", .array [])]
  let document : Json := .object [("actionSets", .null),
    ("ACTIONSETS", .array [.object set]), ("version", .string "1")]
  let keptAction : List (String × Json) := [("type", .string "grip"),
    ("localizedName", .string "Grab"), ("name", .string "grab")]
  let keptSet : List (String × Json) := [("suggestedBindings", .array []),
    ("actions", .array [.object keptAction]), ("priority", .number (.integer 0)),
    ("localizedName", .string "Play"), ("name", .string "play")]
  let kept : Json := .object [("actionSets", .array [.object keptSet])]
  -- what is kept stands in the opposite order of the schema
  have haction : Action.Pruned (.object action) (.object keptAction) := by
    have hfound : lastMatches Action.properties action = keptAction.reverse := by
      simp only [action, keptAction]
      cbv
    refine .object ⟨keptAction.reverse, ?_, List.reverse_perm keptAction⟩
    rw [hfound]
    exact .cons ⟨rfl, rfl⟩ (.cons ⟨rfl, rfl⟩ (.cons ⟨rfl, rfl⟩ .nil))
  have hset : ActionSet.Pruned (.object set) (.object keptSet) := by
    have hfound : lastMatches ActionSet.properties set = [("name", .string "play"),
      ("localizedName", .string "Play"), ("priority", .number (.integer 0)),
      ("actions", .array [.object action]), ("suggestedBindings", .array [])] := by
      simp only [set]
      cbv
    refine .object ⟨keptSet.reverse, ?_, List.reverse_perm keptSet⟩
    rw [hfound]
    have hactions := Json.ArrayRel.array (.cons haction .nil)
    exact .cons ⟨rfl, rfl⟩ (.cons ⟨rfl, rfl⟩ (.cons ⟨rfl, rfl⟩ (.cons ⟨rfl, hactions⟩
      (.cons ⟨rfl, rfl⟩ .nil))))
  have hdocument : Pruned document kept := by
    let chosen : List (String × Json) := [("actionSets", .array [.object keptSet])]
    refine .object ⟨chosen, ?_, .refl chosen⟩
    have hfound : lastMatches properties [("actionSets", .null),
        ("ACTIONSETS", .array [.object set]), ("version", .string "1")] =
          [("actionSets", .array [.object set])] := by
      cbv
    rw [hfound]
    exact .cons ⟨rfl, Json.ArrayRel.array (.cons hset .nil)⟩ .nil
  refine ⟨document, kept, hdocument, ?_, (ofJson_pruned document).2 kept hdocument⟩
  simp only [document, set, action]
  decide +kernel

end XrManifest
