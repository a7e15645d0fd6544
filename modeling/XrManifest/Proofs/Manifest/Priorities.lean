import XrManifest.Proofs.Json.Exchange
import XrManifest.Proofs.Json.NumberTokens
import XrManifest.Proofs.Manifest.LastMatches

/-!
# The place of a priority

The priority of an action set is the last property of its name, in an element of the last
property `actionSets`. `PriorityPlace` is what a document has around it. With any value at this
place the document is read alike, but for the priority of this set. The main statement is
`Manifest.exists_priority_text`: what becomes of a text when another number is put at the place
of a priority of 0.
-/

namespace XrManifest

open XrManifest.Text

/-! ## The last property of a name -/

/-- Where the last property of a name stands among the entries of an object. -/
structure PropertyPlace (name : String) where
  before : List (String × Json)
  key : String
  after : List (String × Json)
  isKey : sameFolded key name = true
  isLast : valuesOf after name = []

namespace PropertyPlace

variable {name : String}

/-- The entries with a value at the place. -/
def put (place : PropertyPlace name) (value : Json) : List (String × Json) :=
  place.before ++ (place.key, value) :: place.after

/-- What counts of the property is the value at the place. -/
theorem lastValue?_put (place : PropertyPlace name) (value : Json) :
    lastValue? (place.put value) name = some value := by
  have hlast := valuesOf_cons_of_same place.isKey value place.after
  rw [place.isLast] at hlast
  rw [lastValue?, put, valuesOf, List.filter_append, List.map_append]
  exact (congrArg List.getLast? (congrArg (_ ++ ·) hlast)).trans (by simp)

/-- Other properties do not depend on the value at the place. -/
theorem lastValue?_put_of_ne {other : String} (hne : sameFolded name other = false)
    (place : PropertyPlace name) (value changed : Json) :
    lastValue? (place.put changed) other = lastValue? (place.put value) other := by
  have hkey : sameFolded place.key other = false := sameFolded_eq_false hne place.isKey
  simp [lastValue?, valuesOf, put, hkey]

/-- A property that is there has a place. -/
theorem exists_of_lastValue? {entries : List (String × Json)} {value : Json}
    (h : lastValue? entries name = some value) :
    ∃ place : PropertyPlace name, entries = place.put value := by
  obtain ⟨front, hvalues⟩ := List.getLast?_eq_some_iff.1 h
  obtain ⟨found, last, hfilter, -, hlast⟩ := List.map_eq_append_iff.1 hvalues
  obtain ⟨⟨key, value'⟩, none, rfl, rfl, hnone⟩ := List.map_eq_cons_iff.1 hlast
  obtain ⟨before, rest, rfl, -, hrest⟩ := List.filter_eq_append_iff.1 hfilter
  obtain ⟨between, after, rfl, -, hkey, hafter⟩ := List.filter_eq_cons_iff.1 hrest
  refine ⟨⟨before ++ between, key, after, hkey, ?_⟩, by simp [put]⟩
  rw [valuesOf, hafter, hnone]

end PropertyPlace

namespace Located

theorem property_object (entries : List (String × Json)) (location : Location) (name : String) :
    property ⟨.object entries, location⟩ name =
      match lastValue? entries name with
      | some value => .ok ⟨value, location ++ [.property name]⟩
      | none => .error (.missing location name) := by
  rw [property, property?_object]
  cases lastValue? entries name <;> rfl

/-- The place of a property that is found. -/
theorem exists_place_of_property {entries : List (String × Json)} {location : Location}
    {name : String} {found : Located} (h : property ⟨.object entries, location⟩ name = .ok found) :
    ∃ (place : PropertyPlace name) (value : Json), entries = place.put value ∧
      found = ⟨value, location ++ [.property name]⟩ := by
  rw [property_object] at h
  cases hlast : lastValue? entries name with
  | none =>
    rw [hlast] at h
    cases h
  | some value =>
    rw [hlast] at h
    obtain ⟨place, hplace⟩ := PropertyPlace.exists_of_lastValue? hlast
    exact ⟨place, value, hplace, (Except.ok.inj h).symm⟩

variable {name : String} (place : PropertyPlace name) (value changed : Json) (location : Location)

/-- The value at the place of a property is found under its name. -/
theorem property_put :
    property ⟨.object (place.put value), location⟩ name =
      .ok ⟨value, location ++ [.property name]⟩ := by
  rw [property_object, place.lastValue?_put]

/-- It is not found under any other name. -/
theorem property_put_of_ne {other : String} (hne : sameFolded name other = false) :
    property ⟨.object (place.put changed), location⟩ other =
      property ⟨.object (place.put value), location⟩ other := by
  rw [property_object, property_object, place.lastValue?_put_of_ne hne value changed]

end Located

/-! ## Documents -/

/-- Where the priority of an action set stands in a document: the place of the list of sets, the
sets in front of this one and behind it, and the place of the priority in this one. -/
structure PriorityPlace where
  sets : PropertyPlace "actionSets"
  before : List Json
  after : List Json
  priority : PropertyPlace "priority"

namespace PriorityPlace

/-- The document with a value at the place. -/
def put (place : PriorityPlace) (value : Json) : Json :=
  .object (place.sets.put
    (.array (place.before ++ .object (place.priority.put value) :: place.after)))

/-- What stands at the place is a part of the document. -/
theorem partOf (place : PriorityPlace) {value : Json} {depth : Nat} {tokens : List Json.Token}
    (h : Json.Spelled depth (place.put value) tokens) :
    Json.PartOf depth place.put value tokens := by
  have hset := h.entry.trans fun inner middle hsets => hsets.element
  exact hset.trans fun inner middle hentries => hentries.entry

end PriorityPlace

/-- The location of the priority of an action set. -/
def ActionSet.priorityLocation (index : Nat) : Location :=
  [.property "actionSets", .element index, .property "priority"]

/-- A manifest with another priority of one of its action sets. -/
def Manifest.withPriority (manifest : Manifest) (index : Nat) (priority : Int32) : Manifest where
  actionSets := manifest.actionSets.modify index fun set => { set with priority }

/-- The set at a place is the one behind as many others. -/
theorem Manifest.withPriority_append {left right : List ActionSet} {set : ActionSet} {index : Nat}
    (hleft : left.length = index) :
    withPriority ⟨left ++ set :: right⟩ index =
      fun priority => ⟨left ++ { set with priority } :: right⟩ := by
  funext priority
  simp [withPriority, ← hleft, List.modify_eq_take_drop]

/-- An action set is read alike whatever stands at the place of its priority, but for the
priority. -/
theorem ActionSet.exists_priority {node : Located} {set : ActionSet} (h : ofNode node = .ok set) :
    ∃ place : PropertyPlace "priority",
      node.value = .object (place.put (.number (.integer set.priority.toInt))) ∧
      ∀ value, ofNode ⟨.object (place.put value), node.location⟩ =
        (Located.int32 ⟨value, node.location ++ [.property "priority"]⟩).map
          fun priority => { set with priority } := by
  obtain ⟨entries, hentries⟩ := Located.object_of_property_bind h
  obtain ⟨_, location⟩ := node
  obtain rfl : _ = Json.object entries := hentries
  obtain ⟨nameNode, hnameNode, h⟩ := bind_eq_ok.1 h
  obtain ⟨name, hname, h⟩ := bind_eq_ok.1 h
  obtain ⟨titleNode, htitleNode, h⟩ := bind_eq_ok.1 h
  obtain ⟨title, htitle, h⟩ := bind_eq_ok.1 h
  obtain ⟨node, hnode, h⟩ := bind_eq_ok.1 h
  obtain ⟨priority, hpriority, h⟩ := bind_eq_ok.1 h
  obtain ⟨listNode, hlistNode, h⟩ := bind_eq_ok.1 h
  obtain ⟨list, hlist, h⟩ := bind_eq_ok.1 h
  obtain ⟨actions, hactions, h⟩ := bind_eq_ok.1 h
  obtain ⟨suggestedNode, hsuggestedNode, h⟩ := bind_eq_ok.1 h
  obtain ⟨suggested, hsuggested, h⟩ := bind_eq_ok.1 h
  obtain ⟨profiles, hprofiles, h⟩ := bind_eq_ok.1 h
  obtain rfl := Except.ok.inj h
  obtain ⟨place, value, rfl, rfl⟩ := Located.exists_place_of_property hnode
  have hvalue : value = .number (.integer priority.toInt) := Located.int32_eq_ok.1 hpriority
  refine ⟨place, by rw [hvalue], fun changed => ?_⟩
  -- no other property has the key of the priority, whatever the case
  have hother : ∀ {other : String} {found : Located}, sameFolded "priority" other = false →
      Located.property ⟨.object (place.put value), location⟩ other = .ok found →
      Located.property ⟨.object (place.put changed), location⟩ other = .ok found :=
    fun hne h => (Located.property_put_of_ne place value changed location hne).trans h
  simp only [ofNode, ok_bind, hother rfl hnameNode, hname, hother rfl htitleNode, htitle,
    Located.property_put, hother rfl hlistNode, hlist, hactions, hother rfl hsuggestedNode,
    hsuggested, hprofiles]
  cases Located.int32 ⟨changed, location ++ [.property "priority"]⟩ <;> rfl

/-- One of the elements of an array with its location. The others do not depend on it. -/
theorem Located.elements_middle (before after : List Json) (location : Location) :
    ∃ front back, front.length = before.length ∧
      ∀ value, elements ⟨.array (before ++ value :: after), location⟩ =
        .ok (front ++ ⟨value, location ++ [.element before.length]⟩ :: back) := by
  let node : Nat → Json → Located := fun index value => ⟨value, location ++ [.element index]⟩
  refine ⟨before.mapIdx node, after.mapIdx fun index => node (index + 1 + before.length),
    List.length_mapIdx, fun value => elements_eq_ok.2 ⟨_, rfl, ?_⟩⟩
  rw [List.mapIdx_append, List.mapIdx_cons, Nat.zero_add]

/-- A member of a list with what stands in front of it and behind it. -/
theorem exists_split {α : Type} {as : List α} {index : Nat} {a : α} (h : as[index]? = some a) :
    ∃ front back, as = front ++ a :: back ∧ front.length = index := by
  obtain ⟨hindex, rfl⟩ := List.getElem?_eq_some_iff.1 h
  refine ⟨as.take index, as.drop (index + 1), ?_, List.length_take_of_le (Nat.le_of_lt hindex)⟩
  rw [← List.drop_eq_getElem_cons, List.take_append_drop]

/-- A manifest is read alike whatever stands at the place of a priority, but for this
priority. -/
theorem Manifest.exists_priority {document : Json} {manifest : Manifest} {index : Nat}
    {set : ActionSet} (h : ofJson document = .ok manifest)
    (hset : manifest.actionSets[index]? = some set) :
    ∃ place : PriorityPlace, document = place.put (.number (.integer set.priority.toInt)) ∧
      ∀ value, ofJson (place.put value) =
        (Located.int32 ⟨value, ActionSet.priorityLocation index⟩).map
          (manifest.withPriority index) := by
  obtain ⟨entries, rfl⟩ : ∃ entries, document = .object entries :=
    Located.object_of_property_bind h
  obtain ⟨node, hnode, h⟩ := bind_eq_ok.1 h
  obtain ⟨nodes, hnodes, h⟩ := bind_eq_ok.1 h
  obtain ⟨actionSets, hsets, h⟩ := bind_eq_ok.1 h
  obtain rfl := Except.ok.inj h
  obtain ⟨sets, value, rfl, rfl⟩ := Located.exists_place_of_property hnode
  obtain ⟨values, rfl, rfl⟩ := Located.elements_eq_ok.1 hnodes
  -- the set stands in the list of values where it stands in the manifest
  have hlength : values.length = actionSets.length := by
    simpa using (mapM_eq_ok.1 hsets).length_eq
  have hindex : index < values.length := hlength ▸ (List.getElem?_eq_some_iff.1 hset).1
  obtain ⟨own, hown⟩ : ∃ own, values[index]? = some own := ⟨_, List.getElem?_eq_getElem hindex⟩
  obtain ⟨before, after, rfl, rfl⟩ := exists_split hown
  obtain ⟨front, back, hfront, helements⟩ :=
    Located.elements_middle before after ([] ++ [.property "actionSets"])
  rw [helements own] at hnodes
  rw [← Except.ok.inj hnodes] at hsets
  obtain ⟨left, found, right, rfl, hleft, hfound, hothers⟩ := mapM_middle hsets
  obtain rfl : found = set := by
    have hsame : (left ++ found :: right)[before.length]? = some found := by
      simp [hleft, hfront]
    exact Option.some.inj (hsame.symm.trans hset)
  obtain ⟨priority, hpriority, hread⟩ := ActionSet.exists_priority hfound
  refine ⟨⟨sets, before, after, priority⟩, ?_, fun changed => ?_⟩
  · rw [PriorityPlace.put, ← hpriority]
  · -- only this set is read from another value, so only its priority changes
    let location : Location := [.property "actionSets", .element before.length]
    have hplace : ActionSet.ofNode ⟨.object (priority.put changed), location⟩ =
        (Located.int32 ⟨changed, ActionSet.priorityLocation before.length⟩).map
          fun priority => { found with priority } := hread changed
    have hset := hothers ⟨.object (priority.put changed), location⟩
    rw [hplace] at hset
    simp only [ofJson, PriorityPlace.put, Located.property_put, ok_bind, helements]
    refine (congrArg (· >>= _) hset).trans ?_
    rw [withPriority_append (hleft.trans hfront)]
    cases Located.int32 ⟨changed, ActionSet.priorityLocation before.length⟩ <;> rfl

/-! ## Texts -/

/-- A number that does not write an integer of 32 bits is reported where it stands. -/
theorem Located.int32_of_scalar {token : Json.NumberToken} {value : Json}
    (hvalue : token.token.Scalar value) (h : ¬ token.WritesInt32) (location : Location) :
    int32 ⟨value, location⟩ = .error (.mismatch location .int32 .number) := by
  obtain ⟨n, rfl, -⟩ := token.scalar_iff.1 hvalue
  have hnone : int32? (.number n) = none := by
    rw [← Option.not_isSome_iff_eq_none]
    intro hsome
    obtain ⟨priority, hpriority⟩ := Option.isSome_iff_exists.1 hsome
    rw [int32?_eq_some.1 hpriority] at hvalue
    exact h (token.scalar_int32.1 hvalue).1
  rw [int32, hnone]
  rfl

namespace Manifest

/-- A manifest is read from its document. -/
theorem read_of_readText {text : String} {document : Json}
    (h : Json.readText (Json.Relaxed.strictChars text.toList) = .ok document) :
    read text = ofJson document := by
  rw [read, Json.Relaxed.read_toStrict_eq_ok.2 h]
  rfl

/-- A text that is no document is no manifest. -/
theorem read_of_readText_ne {text : String}
    (h : ∀ document, Json.readText (Json.Relaxed.strictChars text.toList) ≠ .ok document) :
    ∃ fault, read text = .error (.notJson fault) := by
  cases hread : Json.read (Json.Relaxed.toStrict text) with
  | ok document => exact absurd (Json.Relaxed.read_toStrict_eq_ok.1 hread) (h document)
  | error fault =>
    refine ⟨fault, ?_⟩
    rw [read, hread]
    rfl

/-- The place of a priority of 0 in a text. With a number there that writes an integer of 32
bits, the text is read as the manifest with this priority. With any other number it is refused:
either the text is no document, or the number is reported at the place of the priority. -/
theorem exists_priority_text {text : String} {manifest : Manifest} {index : Nat}
    {set : ActionSet} (h : read text = .ok manifest)
    (hset : manifest.actionSets[index]? = some set) (hzero : set.priority = 0) :
    ∃ before after : String, text = before ++ "0" ++ after ∧ ∀ token : Json.NumberToken,
      (∀ priority : Int32, token.WritesInt32 → token.integer = priority.toInt →
        read (before ++ String.ofList token.text ++ after) =
          .ok (manifest.withPriority index priority)) ∧
      (¬ token.WritesInt32 → ∃ error,
        read (before ++ String.ofList token.text ++ after) = .error error ∧
          ((∃ fault, error = .notJson fault) ∨
            error = .mismatch (ActionSet.priorityLocation index) .int32 .number)) := by
  obtain ⟨document, hdocument, hmanifest⟩ := bind_eq_ok.1 h
  rw [mapError_eq_ok, Json.Relaxed.read_toStrict_eq_ok] at hdocument
  obtain ⟨place, rfl, hread⟩ := exists_priority hmanifest hset
  rw [hzero] at hdocument
  obtain ⟨before, after, htext, hother⟩ := Json.Relaxed.exists_place hdocument
    (fun tokens h => place.partOf h) fun inner middle h => h.zero
  refine ⟨String.ofList before, String.ofList after, ?_, fun token => ?_⟩
  · rw [← String.ofList_toList (s := text), htext]
    simp [String.append_assoc]
  · have hchars : (String.ofList before ++ String.ofList token.text ++ String.ofList after).toList =
        before ++ (token.text ++ after) := by simp
    obtain ⟨hscalar, hfound⟩ := hother token.text token.isWord
    rw [← hchars] at hscalar hfound
    constructor
    · intro priority hwrites hinteger
      have hdocument := hscalar _ (token.scalar_int32.2 ⟨hwrites, hinteger⟩)
      rw [read_of_readText hdocument, hread, Located.int32_eq_ok.2 rfl]
      rfl
    · intro hwrites
      -- the text may be no document at all, when the number is out of range
      by_cases hdocument : ∃ found, Json.readText (Json.Relaxed.strictChars
          (String.ofList before ++ String.ofList token.text ++ String.ofList after).toList) =
            .ok found
      · obtain ⟨found, hfoundText⟩ := hdocument
        obtain ⟨value, hvalue⟩ := hfound found hfoundText
        refine ⟨_, ?_, .inr rfl⟩
        rw [read_of_readText (hscalar _ hvalue), hread, Located.int32_of_scalar hvalue hwrites]
        rfl
      · rw [not_exists] at hdocument
        obtain ⟨fault, hfault⟩ := read_of_readText_ne hdocument
        exact ⟨_, hfault, .inl ⟨fault, rfl⟩⟩

end Manifest
end XrManifest
