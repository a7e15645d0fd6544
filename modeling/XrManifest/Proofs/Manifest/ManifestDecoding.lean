import XrManifest.Json.Writing
import XrManifest.Proofs.Manifest.BindingDecoding

/-!
# Reading the layouts of manifests

The main statement is `ofJson_layouts`: a document that lays a manifest out is read as
that manifest, and a document that is read as a manifest lays it out once it is settled.
-/

namespace XrManifest

open XrManifest.Text

/-! ## Actions -/

/-- Whether an action is read for each hand apart is false when it is left out. -/
theorem Action.perHand_eq_ok {node : Located} {entries : List (String × Json)}
    {next : Bool → Except ReadError Action} {action : Action}
    (hentries : node.value = .object entries) :
    (node.property? "useSubactionPaths" >>= fun found =>
      match found with
      | some value => value.boolean >>= next
      | none => pure false >>= next) = .ok action ↔
      ∃ perHand, (valuesOf (latest entries) "useSubactionPaths" = [.boolean perHand] ∨
        perHand = false ∧ valuesOf (latest entries) "useSubactionPaths" = []) ∧
          next perHand = .ok action := by
  constructor
  · intro h
    rcases bind_eq_ok.1 h with ⟨found, hfound, h⟩
    rcases Located.property?_eq_ok.1 hfound with ⟨entries', hentries', value, hvalue, rfl⟩
    rcases Json.object.inj (hentries.symm.trans hentries') with rfl
    -- without the property the default is taken
    cases value with
    | none => exact ⟨false, .inr ⟨rfl, hvalue⟩, h⟩
    | some value =>
      rcases bind_eq_ok.1 h with ⟨perHand, hhand, h⟩
      have hboolean : value = .boolean perHand := Located.boolean_eq_ok.1 hhand
      exact ⟨perHand, .inl (by rw [hvalue, hboolean]; rfl), h⟩
  · rintro ⟨perHand, hvalue | ⟨rfl, hvalue⟩, h⟩
    · refine bind_eq_ok.2 ⟨some (node.child "useSubactionPaths" (.boolean perHand)), ?_, ?_⟩
      · exact Located.property?_eq_ok.2 ⟨entries, hentries, some _, hvalue, rfl⟩
      · exact bind_eq_ok.2 ⟨perHand, rfl, h⟩
    · refine bind_eq_ok.2 ⟨none, ?_, h⟩
      exact Located.property?_eq_ok.2 ⟨entries, hentries, none, hvalue, rfl⟩

/-- An action is read from the documents that lay it out once they are settled. -/
theorem Action.reads_ofNode :
    Located.Reads Action.ofNode fun action value => action.LaidOut (Action.settled value) := by
  intro node action
  constructor
  · intro h
    rcases Located.object_of_property_bind h with ⟨entries, hentries⟩
    rcases (Located.property_string_eq_ok hentries).1 h with ⟨name, hname, h⟩
    rcases (Located.property_string_eq_ok hentries).1 h with ⟨localizedName, hlocalized, h⟩
    rcases (Located.property_bind_eq_ok hentries Located.reads_actionType).1 h with
      ⟨type, value, htype, ⟨text, hspelled, rfl⟩, h⟩
    rcases (Action.perHand_eq_ok hentries).1 h with ⟨perHand, hhand, h⟩
    rcases Except.ok.inj h with rfl
    exact ⟨latest entries, mapEntries_eq_object.2 ⟨entries, hentries, rfl⟩,
      hname, hlocalized, ⟨text, hspelled, htype⟩, hhand⟩
  -- property by property, each reader is given what it relates
  · rintro ⟨_, hsettled, hname, hlocalized, ⟨text, hspelled, htype⟩, hhand⟩
    rcases mapEntries_eq_object.1 hsettled with ⟨entries, hentries, rfl⟩
    refine (Located.property_string_eq_ok hentries).2 ⟨action.name, hname, ?_⟩
    refine (Located.property_string_eq_ok hentries).2 ⟨action.localizedName, hlocalized, ?_⟩
    refine (Located.property_bind_eq_ok hentries Located.reads_actionType).2
      ⟨action.type, .string text, htype, ⟨text, hspelled, rfl⟩, ?_⟩
    exact (Action.perHand_eq_ok hentries).2 ⟨action.perHand, hhand, rfl⟩

/-- What a layout says once is not overridden. -/
theorem Action.laidOut_settled {action : Action} {document : Json} (h : action.LaidOut document) :
    action.LaidOut (settled document) := by
  rcases h with ⟨entries, rfl, hname, hlocalized, ⟨text, hspelled, htype⟩, hhand⟩
  refine ⟨latest entries, rfl, valuesOf_latest_singleton hname,
    valuesOf_latest_singleton hlocalized, ⟨text, hspelled, valuesOf_latest_singleton htype⟩, ?_⟩
  rcases hhand with hhand | ⟨hfalse, hnone⟩
  · exact .inl (valuesOf_latest_singleton hhand)
  · refine .inr ⟨hfalse, ?_⟩
    rw [valuesOf_latest, hnone]
    rfl

/-! ## Action sets -/

namespace ActionSet

/-- The action set can be read from the document: the properties that no later one
overrides are those of the set. -/
def ReadFrom (set : ActionSet) (document : Json) : Prop :=
  ∃ entries, document = .object entries ∧
    set.Fields (fun action value => action.LaidOut (Action.settled value))
      ProfileBindings.ReadFrom (latest entries)

/-- An action set is read exactly from the documents that it can be read from. -/
theorem reads_ofNode : Located.Reads ofNode ReadFrom := by
  intro node set
  constructor
  · intro h
    rcases Located.object_of_property_bind h with ⟨entries, hentries⟩
    rcases (Located.property_string_eq_ok hentries).1 h with ⟨name, hname, h⟩
    rcases (Located.property_string_eq_ok hentries).1 h with ⟨localizedName, hlocalized, h⟩
    rcases (Located.property_bind_eq_ok hentries Located.reads_int32).1 h with
      ⟨priority, _, hpriority, rfl, h⟩
    rcases (Located.property_list_eq_ok hentries Action.reads_ofNode).1 h with
      ⟨actions, hactions, h⟩
    rcases (Located.property_list_eq_ok hentries ProfileBindings.reads_ofNode).1 h with
      ⟨profiles, hprofiles, h⟩
    rcases Except.ok.inj h with rfl
    exact ⟨entries, hentries, hname, hlocalized, hpriority, hactions, hprofiles⟩
  -- the same steps the other way
  · rintro ⟨entries, hentries, hname, hlocalized, hpriority, hactions, hprofiles⟩
    refine (Located.property_string_eq_ok hentries).2 ⟨set.name, hname, ?_⟩
    refine (Located.property_string_eq_ok hentries).2 ⟨set.localizedName, hlocalized, ?_⟩
    refine (Located.property_bind_eq_ok hentries Located.reads_int32).2
      ⟨set.priority, _, hpriority, rfl, ?_⟩
    refine (Located.property_list_eq_ok hentries Action.reads_ofNode).2
      ⟨set.actions, hactions, ?_⟩
    exact (Located.property_list_eq_ok hentries ProfileBindings.reads_ofNode).2
      ⟨set.profiles, hprofiles, rfl⟩

/-- Without repeated properties nothing is overridden. -/
theorem readFrom_of_laidOut {set : ActionSet} {document : Json}
    (hexpressible : ∀ suggested ∈ set.profiles, suggested.Expressible)
    (h : set.LaidOut document) : set.ReadFrom document := by
  rcases h with ⟨entries, rfl, hname, hlocalized, hpriority, hactions, hprofiles⟩
  refine ⟨entries, rfl, valuesOf_latest_singleton hname, valuesOf_latest_singleton hlocalized,
    valuesOf_latest_singleton hpriority, ?_, ?_⟩
  · exact hactions.latest.imp fun action _ document h => action.laidOut_settled h
  · exact hprofiles.latest.imp fun suggested hmem document h =>
      ProfileBindings.readFrom_of_laidOut (hexpressible suggested hmem) h

/-- What an action set is read from lays it out once what is overridden is gone. -/
theorem laidOut_of_readFrom {set : ActionSet} {document : Json} (h : set.ReadFrom document) :
    (∀ suggested ∈ set.profiles, suggested.Expressible) ∧ set.LaidOut (settled document) := by
  rcases h with ⟨entries, rfl, hname, hlocalized, hpriority, hactions, hprofiles⟩
  -- the properties other than the two lists keep their values
  have hkept : ∀ {name : String} {values : List Json}, sameFolded name "actions" = false →
      sameFolded name "suggestedBindings" = false → valuesOf (latest entries) name = values →
      valuesOf (mapProperty "suggestedBindings" (Json.mapElements ProfileBindings.settled)
        (mapProperty "actions" (Json.mapElements Action.settled) (latest entries))) name =
          values := by
    intro name values hactions hbindings hvalues
    rw [valuesOf_mapProperty_of_ne hbindings, valuesOf_mapProperty_of_ne hactions, hvalues]
  constructor
  · exact hprofiles.forall_mem fun suggested document h =>
      (ProfileBindings.laidOut_of_readFrom h).1
  · refine ⟨_, rfl, hkept rfl rfl hname, hkept rfl rfl hlocalized, hkept rfl rfl hpriority, ?_, ?_⟩
    · exact .mapProperty_of_ne rfl (.mapProperty hactions)
    · refine .mapProperty (.mapProperty_of_ne rfl (hprofiles.imp ?_))
      exact fun suggested _ document h => (ProfileBindings.laidOut_of_readFrom h).2

end ActionSet

/-! ## Manifests -/

namespace Manifest

/-- A manifest is read exactly from the documents that list its action sets. -/
theorem ofJson_eq_ok {document : Json} {manifest : Manifest} :
    ofJson document = .ok manifest ↔ ∃ entries, document = .object entries ∧
      Lists (latest entries) "actionSets" ActionSet.ReadFrom manifest.actionSets := by
  constructor
  · intro h
    rcases Located.object_of_property_bind h with ⟨entries, hentries⟩
    rcases (Located.property_list_eq_ok hentries ActionSet.reads_ofNode).1 h with ⟨sets, hsets, h⟩
    rcases Except.ok.inj h with rfl
    exact ⟨entries, hentries, hsets⟩
  · rintro ⟨entries, rfl, hsets⟩
    exact (Located.property_list_eq_ok rfl ActionSet.reads_ofNode).2 ⟨_, hsets, rfl⟩

/-- The layouts of manifests are read, and nothing else. A document that lays out a
manifest that can be written is read as this manifest. A manifest that is read can be
written, binds no action twice in a profile, and is laid out by the settled document. A
text is read by way of its document. -/
theorem ofJson_layouts :
    (∀ (manifest : Manifest) (document : Json), manifest.Expressible →
      manifest.LaidOut document → ofJson document = .ok manifest) ∧
    (∀ (document : Json) (manifest : Manifest), ofJson document = .ok manifest →
      manifest.Expressible ∧
      (∀ set ∈ manifest.actionSets, ∀ suggested ∈ set.profiles,
        suggested.bindings.actions.Nodup) ∧
      manifest.LaidOut (settled document)) ∧
    ∀ (text : String) (manifest : Manifest), read text = .ok manifest ↔
      ∃ document, Json.read (Json.Relaxed.toStrict text) = .ok document ∧
        ofJson document = .ok manifest := by
  refine ⟨?_, ?_, ?_⟩
  · rintro manifest document hexpressible ⟨entries, rfl, hsets⟩
    refine ofJson_eq_ok.2 ⟨entries, rfl, hsets.latest.imp ?_⟩
    exact fun set hmem document h => ActionSet.readFrom_of_laidOut (hexpressible set hmem) h
  · intro document manifest h
    rcases ofJson_eq_ok.1 h with ⟨entries, rfl, hsets⟩
    refine ⟨?_, ?_, ?_⟩
    · exact hsets.forall_mem fun set document h => (ActionSet.laidOut_of_readFrom h).1
    · exact fun set _ suggested _ => suggested.bindings.nodup_actions
    · refine ⟨_, rfl, .mapProperty (hsets.imp ?_)⟩
      exact fun set _ document h => (ActionSet.laidOut_of_readFrom h).2
  · intro text manifest
    rw [read, bind_eq_ok]
    simp only [mapError_eq_ok]

/-- A manifest with one action, laid out with names in another case, a property of another
name and the profile behind the bindings. In the text of an empty manifest, a property is
overridden. -/
theorem ofJson_layouts_one_action :
    (∃ (manifest : Manifest) (document : Json), manifest.actionSets.length = 1 ∧
      manifest.Expressible ∧ manifest.LaidOut document ∧ ofJson document = .ok manifest ∧
      manifest.LaidOut (settled document)) ∧
    ∃ text, read text = .ok ⟨[]⟩ ∧ ∃ document,
      Json.read (Json.Relaxed.toStrict text) = .ok document ∧
      LaidOut ⟨[]⟩ (settled document) := by
  let action : Action := ⟨"grab", "Grab", .vector2, false⟩
  let suggested : ProfileBindings :=
    ⟨"/interaction_profiles/any", ⟨[("grab", ["/user/hand/left"])], by decide⟩⟩
  let set : ActionSet := ⟨"play", "Play", 3, [action], [suggested]⟩
  let manifest : Manifest := ⟨[set]⟩
  let actionDocument : Json := .object [("Type", .string "vector2"), ("note", .null),
    ("name", .string "grab"), ("LOCALIZEDNAME", .string "Grab")]
  let bindings : Json := .object [("grab", .array [.string "/user/hand/left"]),
    ("INTERACTIONPROFILE", .string "/interaction_profiles/any")]
  let entries : List (String × Json) := [("priority", .number (.integer 3)),
    ("actions", .array [actionDocument]), ("localizedName", .string "Play"),
    ("name", .string "play"), ("SuggestedBindings", .array [bindings])]
  let document : Json := .object [("actionsets", .array [.object entries])]
  let text : String := (Json.object [("actionSets", .null), ("ACTIONSETS", .array [])]).write
  have hexpressible : manifest.Expressible := by
    intro s hs p hp
    rcases List.mem_singleton.1 hs with rfl
    rcases List.mem_singleton.1 hp with rfl
    exact ⟨by decide, fun action haction => by rcases List.mem_singleton.1 haction with rfl; rfl⟩
  have haction : action.LaidOut actionDocument :=
    ⟨_, rfl, rfl, rfl, ⟨"vector2", ⟨"Vector2", by decide, rfl⟩, rfl⟩, .inr ⟨rfl, rfl⟩⟩
  have hbindings : suggested.LaidOut bindings := ⟨[_], _, [], rfl, rfl, rfl⟩
  have hset : set.LaidOut (.object entries) := by
    refine ⟨_, rfl, ?_, ?_, ?_, ⟨[actionDocument], ?_, .cons haction .nil⟩,
      ⟨[bindings], ?_, .cons hbindings .nil⟩⟩ <;>
    · simp (disch := decide) only [entries, valuesOf_cons_of_ne, valuesOf_cons_of_same]
      rfl
  have hlaidOut : manifest.LaidOut document :=
    ⟨_, rfl, [_], valuesOf_cons_of_same (by decide) _ _, .cons hset .nil⟩
  have hdocument : ofJson document = .ok manifest :=
    ofJson_layouts.1 manifest document hexpressible hlaidOut
  have hread : read text = .ok ⟨[]⟩ := by decide +kernel
  constructor
  · exact ⟨manifest, document, rfl, hexpressible, hlaidOut, hdocument,
      (ofJson_layouts.2.1 document manifest hdocument).2.2⟩
  · rcases (ofJson_layouts.2.2 text ⟨[]⟩).1 hread with ⟨found, hfound, hmanifest⟩
    exact ⟨text, hread, found, hfound, (ofJson_layouts.2.1 found ⟨[]⟩ hmanifest).2.2⟩

end Manifest
end XrManifest
