import XrManifest.Proofs.Manifest.BindingFaults
import XrManifest.Proofs.Manifest.LastMatches

/-!
# Faults of manifests

The schema has parts: the manifest, its action sets, their properties, and so on.
`Stands document part location value` says that the value is what a document has for a part, and
that the steps of the location lead to it. `AtFault` says what can be wrong with a value that
stands somewhere, and how it is reported. The main statement is `Manifest.read_faults`: a
document is refused only for a value that is at fault, at the place where this value stands.
-/

namespace XrManifest

open XrManifest.Text

/-! ## The schema -/

/-- A part of the schema. -/
inductive Part where
  | manifest
  | actionSet
  | action
  | bindings
  | profile
  | text
  | priority
  | actionType
  | flag
  | list (part : Part)
deriving DecidableEq, Repr

/-- A property of an object of the schema: its name, what its value is, and whether the object
has to have it. -/
structure Part.Property where
  name : String
  part : Part
  required : Bool
deriving DecidableEq, Repr

namespace Part

/-- What a value for this part is expected to be. -/
def expected : Part → Expected
  | manifest | actionSet | action => .object
  | bindings => .bindingsObject
  | list _ => .array
  | profile | text | actionType => .string
  | priority => .int32
  | flag => .boolean

/-- The properties of an object. The keys of suggested bindings are no such names. -/
def properties : Part → List Property
  | manifest => [⟨"actionSets", list actionSet, true⟩]
  | actionSet =>
    [⟨"name", text, true⟩, ⟨"localizedName", text, true⟩, ⟨"priority", priority, true⟩,
      ⟨"actions", list action, true⟩, ⟨"suggestedBindings", list bindings, true⟩]
  | action =>
    [⟨"name", text, true⟩, ⟨"localizedName", text, true⟩, ⟨"type", actionType, true⟩,
      ⟨"useSubactionPaths", flag, false⟩]
  | _ => []

/-- Only objects have properties. -/
theorem expected_of_mem_properties {part : Part} {property : Property}
    (h : property ∈ part.properties) : part.expected = .object := by
  cases part with
  | manifest | actionSet | action => rfl
  | bindings | profile | text | priority | actionType | flag | list => cases h

end Part

/-- The value is what is expected. A number is a 32-bit integer when it is written without a
fraction or an exponent, and is in range. -/
def Expected.Holds : Expected → Json → Prop
  | object, value => value.kind = .object
  | bindingsObject, value => value.kind = .object
  | array, value => value.kind = .array
  | string, value => value.kind = .string
  | boolean, value => value.kind = .boolean
  | int32, value => ∃ n : Int32, value = .number (.integer n.toInt)

/-! ## Places -/

/-- What a document has for a part, and the steps that lead to it. A property of the schema is
the last one of its name in any case. Suggested bindings are taken entry by entry: what is under
a key that spells `interactionProfile` is the profile, and what is under any other key is a list
of paths. -/
inductive Stands (document : Json) : Part → Location → Json → Prop where
  | root : Stands document .manifest [] document
  | property {part child : Part} {location : Location} {entries : List (String × Json)}
      {name : String} {required : Bool} {value : Json}
      (hobject : Stands document part location (.object entries))
      (hproperty : ⟨name, child, required⟩ ∈ part.properties)
      (hlast : lastValue? entries name = some value) :
      Stands document child (location ++ [.property name]) value
  | element {part : Part} {location : Location} {values : List Json} {index : Nat} {value : Json}
      (hlist : Stands document (.list part) location (.array values))
      (hvalue : values[index]? = some value) :
      Stands document part (location ++ [.element index]) value
  | profile {location : Location} {entries : List (String × Json)} {index : Nat} {key : String}
      {value : Json} (hobject : Stands document .bindings location (.object entries))
      (hentry : entries[index]? = some (key, value))
      (hkey : sameFolded key ProfileBindings.profileKey = true) :
      Stands document .profile (location ++ [.property ProfileBindings.profileKey]) value
  | paths {location : Location} {entries : List (String × Json)} {index : Nat} {key : String}
      {value : Json} (hobject : Stands document .bindings location (.object entries))
      (hentry : entries[index]? = some (key, value))
      (hkey : sameFolded key ProfileBindings.profileKey = false) :
      Stands document (.list .text) (location ++ [.property key]) value

/-- How a place is written: `$` for the root, which is left out in front of a property. -/
inductive Location.WrittenAs : Location → String → Prop where
  | root : WrittenAs [] "$"
  | top (name : String) : WrittenAs [.property name] name
  | property {location : Location} {place : String} (name : String)
      (hplace : WrittenAs location place) (hbelow : location ≠ []) :
      WrittenAs (location ++ [.property name]) (place ++ "." ++ name)
  | element {location : Location} {place : String} (index : Nat)
      (hplace : WrittenAs location place) :
      WrittenAs (location ++ [.element index]) (place ++ "[" ++ toString index ++ "]")

/-! ## Faults -/

/-- What is wrong with a value that stands at a place, and how it is reported. -/
inductive AtFault (document : Json) (location : Location) : ReadError → Prop where
  /-- The value is not what is expected; null may stand for the profile. -/
  | mismatch {part : Part} {value : Json} (hstands : Stands document part location value)
      (hnot : ¬ part.expected.Holds value) (hnull : part = .profile → value.kind ≠ .null) :
      AtFault document location (.mismatch location part.expected value.kind)
  /-- The object does not have a property that it has to have. -/
  | missing {part child : Part} {entries : List (String × Json)} {name : String}
      (hstands : Stands document part location (.object entries))
      (hproperty : ⟨name, child, true⟩ ∈ part.properties)
      (hnone : ∀ entry ∈ entries, sameFolded entry.1 name = false) :
      AtFault document location (.missing location name)
  /-- The object names no profile, or the last name is null or empty. -/
  | unnamed {entries : List (String × Json)}
      (hstands : Stands document .bindings location (.object entries))
      (hlast : ∀ value, lastValue? entries ProfileBindings.profileKey = some value →
        value = .null ∨ value = .string "") :
      AtFault document location (.missing location ProfileBindings.profileKey)
  /-- The text spells no kind of action. -/
  | unknownActionType {text : String}
      (hstands : Stands document .actionType location (.string text))
      (hspelled : ∀ type : ActionType, ¬ type.SpelledBy text) :
      AtFault document location (.unknownActionType location text)
  /-- An earlier entry of the same object has the same key. -/
  | boundTwice {place : Location} {entries : List (String × Json)} {earlier index : Nat}
      {key : String} {value other : Json}
      (hstands : Stands document .bindings place (.object entries))
      (hlocation : location = place ++ [.property key])
      (hentry : entries[index]? = some (key, value))
      (hkey : sameFolded key ProfileBindings.profileKey = false)
      (hearlier : entries[earlier]? = some (key, other)) (hbefore : earlier < index) :
      AtFault document location (.boundTwice location key)

/-- The place that an error of the schema is reported for. -/
def ReadError.location? : ReadError → Option Location
  | notJson _ => none
  | mismatch location _ _ => some location
  | boundTwice location _ => some location
  | missing location _ => some location
  | unknownActionType location _ => some location

/-- A fault is reported for the place where it is. -/
theorem AtFault.location?_eq {document : Json} {location : Location} {error : ReadError}
    (h : AtFault document location error) : error.location? = some location := by
  cases h with
  | mismatch | missing | unnamed | unknownActionType | boundTwice => rfl

/-! ## How places are written -/

namespace Location

/-- A step is written behind the others, unless there are none. -/
theorem describe_append {location : Location} (hbelow : location ≠ []) (step : Step) :
    describe (location ++ [step]) = location.describe ++ step.describe := by
  rcases location with _ | ⟨_ | _, rest⟩
  · exact absurd rfl hbelow
  · simp [describe, String.join_append, String.append_assoc]
  · simp [describe, String.join_append, String.append_assoc]

theorem describe_element (location : Location) (index : Nat) :
    describe (location ++ [.element index]) =
      location.describe ++ "[" ++ toString index ++ "]" := by
  have hstep : Step.describe (.element index) = "[" ++ toString index ++ "]" := rfl
  by_cases hbelow : location = []
  · subst hbelow
    show "$" ++ String.join [Step.describe (.element index)] = "$" ++ "[" ++ toString index ++ "]"
    rw [String.join_cons, String.join_nil, String.append_empty, hstep, String.append_assoc,
      String.append_assoc, String.append_assoc]
  · rw [describe_append hbelow, hstep, String.append_assoc, String.append_assoc,
      String.append_assoc]

theorem describe_property {location : Location} (hbelow : location ≠ []) (name : String) :
    describe (location ++ [.property name]) = location.describe ++ "." ++ name := by
  have hstep : Step.describe (.property name) = "." ++ name := rfl
  rw [describe_append hbelow, hstep, String.append_assoc]

/-- The places that are reported are written as paths. -/
theorem writtenAs_describe (location : Location) : location.WrittenAs location.describe := by
  -- a place is written after the place above it
  induction location using List.reverseRecOn with
  | nil => exact .root
  | append_singleton location step ih =>
    cases step with
    | element index =>
      rw [describe_element]
      exact .element index ih
    | property name =>
      by_cases hbelow : location = []
      · subst hbelow
        have htop : describe [.property name] = name := by simp [describe]
        rw [List.nil_append, htop]
        exact .top name
      · rw [describe_property hbelow]
        exact .property name ih hbelow

end Location

/-- The message of an error names the place of the fault. -/
theorem AtFault.message {document : Json} {location : Location} {error : ReadError}
    (h : AtFault document location error) :
    ∃ before after, error.message = before ++ "`" ++ location.describe ++ "`" ++ after := by
  -- the backticks belong to longer literals, which are cut around the path
  have hopen : "Malformed input at " ++ "`" = "Malformed input at `" := by simp
  have hat : "` at " ++ "`" = "` at `" := by simp
  have hclose : "`" ++ ": " = "`: " := by simp
  have hmalformed : ∀ detail, ReadError.malformed location.describe detail =
      "Malformed input at " ++ "`" ++ location.describe ++ "`" ++ (": " ++ detail) := by
    intro detail
    calc ReadError.malformed location.describe detail
        = "Malformed input at " ++ "`" ++ location.describe ++ ("`" ++ ": ") ++ detail := by
          rw [hopen, hclose]
          rfl
      _ = _ := by simp only [String.append_assoc]
  have hlast : ∀ before : String, before ++ "` at `" ++ location.describe ++ "`" =
      before ++ "` at " ++ "`" ++ location.describe ++ "`" ++ "" := by
    intro before
    calc before ++ "` at `" ++ location.describe ++ "`"
        = before ++ ("` at " ++ "`") ++ location.describe ++ "`" := by rw [hat]
      _ = _ := by simp only [String.append_assoc, String.append_empty]
  cases h with
  | mismatch => exact ⟨_, _, hmalformed _⟩
  | boundTwice => exact ⟨_, _, hmalformed _⟩
  | missing => exact ⟨_, _, hlast _⟩
  | unnamed => exact ⟨_, _, hlast _⟩
  | unknownActionType => exact ⟨_, _, hlast _⟩

/-! ## Readers -/

/-- The outcome is no error but that of a fault. -/
def Justified (document : Json) {α : Type} (outcome : Except ReadError α) : Prop :=
  ∀ error, outcome = .error error → ∃ location, AtFault document location error

/-- Wherever the part stands, the reader fails only for a fault. -/
def ReadsPart {α : Type} (part : Part) (read : Located → Except ReadError α) : Prop :=
  ∀ document location value, Stands document part location value →
    Justified document (read ⟨value, location⟩)

section
variable {document : Json} {α β : Type}

theorem Justified.ok (a : α) : Justified document (.ok a) := by
  intro error h
  cases h

/-- An outcome is justified step by step. -/
theorem Justified.bind {step : Except ReadError α} {next : α → Except ReadError β}
    (hstep : Justified document step) (hnext : ∀ a, step = .ok a → Justified document (next a)) :
    Justified document (step >>= next) := by
  intro error h
  rcases bind_eq_error.1 h with h | ⟨a, ha, h⟩
  · exact hstep error h
  · exact hnext a ha error h

/-- What is read element by element fails with one of the elements. -/
theorem justified_mapM {f : α → Except ReadError β} {as : List α}
    (hf : ∀ a ∈ as, Justified document (f a)) : Justified document (as.mapM f) := by
  intro error h
  obtain ⟨a, ha, hfailure⟩ := exists_failure_of_mapM h
  exact hf a ha error hfailure

end

section
variable {α β : Type} {part child : Part} {document : Json} {location : Location} {value : Json}

/-- A reader may complain about a value that is not what is expected. -/
theorem justified_of_mismatch {outcome : Except ReadError α}
    (hstands : Stands document part location value) (hpart : part ≠ .profile)
    (houtcome : ∀ error, outcome = .error error →
      ¬ part.expected.Holds value ∧ error = .mismatch location part.expected value.kind) :
    Justified document outcome := by
  intro error h
  obtain ⟨hnot, rfl⟩ := houtcome error h
  exact ⟨location, .mismatch hstands hnot fun hprofile => absurd hprofile hpart⟩

/-- A text is refused for its kind only. -/
theorem readsPart_text : ReadsPart .text Located.string := by
  intro document location value hstands
  apply justified_of_mismatch hstands (by decide)
  intro error h
  exact Located.string_eq_error.1 h

theorem readsPart_flag : ReadsPart .flag Located.boolean := by
  intro document location value hstands
  apply justified_of_mismatch hstands (by decide)
  intro error h
  cases value with
  | boolean => cases h
  | null | number | string | array | object =>
    exact ⟨fun hkind => (nomatch hkind), (Except.error.inj h).symm⟩

/-- A priority is refused for its kind, its range or its spelling. -/
theorem readsPart_priority : ReadsPart .priority Located.int32 := by
  intro document location value hstands
  apply justified_of_mismatch hstands (by decide)
  intro error h
  -- only a number without a 32-bit value is refused
  cases hvalue : Located.int32? value with
  | some n =>
    rw [Located.int32, hvalue] at h
    cases h
  | none =>
    rw [Located.int32, hvalue] at h
    refine ⟨?_, (Except.error.inj h).symm⟩
    rintro ⟨n, rfl⟩
    rw [Located.int32?_eq_some.2 rfl] at hvalue
    cases hvalue

/-- A kind of action is refused as no text, or as the text of none. -/
theorem readsPart_actionType : ReadsPart .actionType Located.actionType := by
  intro document location value hstands
  have hstring : Justified document (Located.string ⟨value, location⟩) := by
    apply justified_of_mismatch hstands (by decide)
    intro error h
    exact Located.string_eq_error.1 h
  refine hstring.bind fun text htext => ?_
  have hvalue : value = .string text := Located.string_eq_ok.1 htext
  subst hvalue
  intro error h
  cases hname : ActionType.ofName? text with
  | some type =>
    rw [hname] at h
    cases h
  | none =>
    rw [hname] at h
    rcases Except.error.inj h with rfl
    -- had the text a kind, the kind would have been found
    refine ⟨location, .unknownActionType hstands fun type hspelled => ?_⟩
    have hfound : ActionType.ofName? text = some type :=
      (findFolded?_eq_some (by decide)).2 hspelled
    rw [hname] at hfound
    cases hfound

/-- A list is read element by element. -/
theorem readsPart_list {read : Located → Except ReadError α} (hread : ReadsPart part read) :
    ReadsPart (.list part) fun node => node.elements >>= fun nodes => nodes.mapM read := by
  intro document location value hstands
  have helements : Justified document (Located.elements ⟨value, location⟩) := by
    apply justified_of_mismatch hstands (fun hprofile => nomatch hprofile)
    intro error h
    exact Located.elements_eq_error.1 h
  refine helements.bind fun nodes hnodes => justified_mapM fun node hnode => ?_
  obtain ⟨values, hvalue, rfl⟩ := Located.elements_eq_ok.1 hnodes
  have hvalue : value = .array values := hvalue
  subst hvalue
  obtain ⟨index, hindex, rfl⟩ := List.mem_mapIdx.1 hnode
  exact hread document _ _ (hstands.element (List.getElem?_eq_getElem hindex))

/-! ## Properties -/

section
variable {name : String} {required : Bool}

/-- A property is looked for in objects only. -/
theorem justified_property? (hstands : Stands document part location value)
    (hproperty : ⟨name, child, required⟩ ∈ part.properties) :
    Justified document (Located.property? ⟨value, location⟩ name) := by
  have hobject := Part.expected_of_mem_properties hproperty
  have hpart : part ≠ .profile := by
    rintro rfl
    cases hproperty
  apply justified_of_mismatch hstands hpart
  intro error h
  rw [hobject]
  -- a property that may be missing is refused only where its owner is no object
  cases value with
  | object entries =>
    rw [Located.property?_object] at h
    cases h
  | null | boolean | number | string | array =>
    exact ⟨fun hkind => (nomatch hkind), (Except.error.inj h).symm⟩

/-- What is found for a property stands at its place. -/
theorem stands_property? (hstands : Stands document part location value)
    (hproperty : ⟨name, child, required⟩ ∈ part.properties) {found : Located}
    (h : Located.property? ⟨value, location⟩ name = .ok (some found)) :
    Stands document child found.location found.value := by
  cases value with
  | object entries =>
    rw [Located.property?_object] at h
    obtain ⟨value, hlast, rfl⟩ := Option.map_eq_some_iff.1 (Except.ok.inj h)
    exact hstands.property hproperty hlast
  | null | boolean | number | string | array => cases h

/-- Where no property is found that an object has to have, it is missing. -/
theorem missing_of_property? (hstands : Stands document part location value)
    (hproperty : ⟨name, child, true⟩ ∈ part.properties)
    (h : Located.property? ⟨value, location⟩ name = .ok none) :
    AtFault document location (.missing location name) := by
  cases value with
  | object entries =>
    rw [Located.property?_object] at h
    have hlast : lastValue? entries name = none := Option.map_eq_none_iff.1 (Except.ok.inj h)
    have hvalues := List.map_eq_nil_iff.1 (List.getLast?_eq_none_iff.1 hlast)
    refine .missing hstands hproperty fun entry hentry => ?_
    simpa using List.filter_eq_nil_iff.1 hvalues entry hentry
  | null | boolean | number | string | array => cases h

/-- A property is looked up, and there is one or not. -/
theorem Justified.property? {next : Option Located → Except ReadError β}
    (hstands : Stands document part location value)
    (hproperty : ⟨name, child, required⟩ ∈ part.properties)
    (hnone : Located.property? ⟨value, location⟩ name = .ok none → Justified document (next none))
    (hsome : ∀ found, Stands document child found.location found.value →
      Justified document (next (some found))) :
    Justified document (Located.property? ⟨value, location⟩ name >>= next) := by
  refine (justified_property? hstands hproperty).bind fun found h => ?_
  cases found with
  | none => exact hnone h
  | some found => exact hsome found (stands_property? hstands hproperty h)

/-- A property that an object has to have is looked up and read. -/
theorem Justified.property {read : Located → Except ReadError α} {next : α → Except ReadError β}
    (hstands : Stands document part location value)
    (hproperty : ⟨name, child, true⟩ ∈ part.properties) (hread : ReadsPart child read)
    (hnext : ∀ a, Justified document (next a)) :
    Justified document
      (Located.property ⟨value, location⟩ name >>= fun found => read found >>= next) := by
  rw [Located.property, bind_assoc]
  refine .property? hstands hproperty (fun hlookup => ?_) fun found hfound => ?_
  · intro error h
    rcases Except.error.inj h with rfl
    exact ⟨location, missing_of_property? hstands hproperty hlookup⟩
  · exact (hread document found.location found.value hfound).bind fun a _ => hnext a

/-- A list that an object has to have is looked up and read. -/
theorem Justified.property_list {read : Located → Except ReadError α}
    {next : List α → Except ReadError β} (hstands : Stands document part location value)
    (hproperty : ⟨name, .list child, true⟩ ∈ part.properties) (hread : ReadsPart child read)
    (hnext : ∀ as, Justified document (next as)) :
    Justified document (Located.property ⟨value, location⟩ name >>= fun found =>
      found.elements >>= fun nodes => nodes.mapM read >>= next) := by
  have hlist := Justified.property hstands hproperty (readsPart_list hread) hnext
  simpa only [bind_assoc] using hlist

end
end

/-! ## Objects -/

/-- An action fails for a fault of one of its properties, or as no object. -/
theorem Action.readsPart : ReadsPart .action ofNode := by
  intro document location value hstands
  refine .property hstands (by decide) readsPart_text fun name => ?_
  refine .property hstands (by decide) readsPart_text fun localizedName => ?_
  refine .property hstands (by decide) readsPart_actionType fun type => ?_
  have hflag : ⟨"useSubactionPaths", .flag, false⟩ ∈ Part.action.properties := by decide
  refine .property? hstands hflag (fun _ => ?_) fun found hfound => ?_
  · exact .ok _
  · exact (readsPart_flag document found.location found.value hfound).bind fun _ _ => .ok _

namespace ProfileBindings

variable {document : Json} {location : Location} {entries : List (String × Json)}
  {error : ReadError}

/-- What is wrong with an entry is at fault in the document. -/
theorem Fault.atFault {before after : List (String × Json)} {entry : String × Json}
    (hstands : Stands document .bindings location (.object entries))
    (hentries : entries = before ++ entry :: after) (h : Fault location before entry error) :
    ∃ place, AtFault document place error := by
  have hentry : entries[before.length]? = some entry := by
    rw [hentries, List.getElem?_append_right (Nat.le_refl _), Nat.sub_self]
    rfl
  cases h with
  | profile hkey hnull hvalue =>
    exact ⟨_, .mismatch (hstands.profile hentry hkey) hvalue fun _ => hnull⟩
  | paths hkey hvalue =>
    exact ⟨_, .mismatch (hstands.paths hentry hkey) hvalue fun hprofile => nomatch hprofile⟩
  | @path key paths value later hkey hvalue =>
    have hplace : (paths.map Json.string ++ value :: later)[paths.length]? = some value := by
      rw [List.getElem?_append_right (by simp), List.length_map, Nat.sub_self]
      rfl
    have helement := (hstands.paths hentry hkey).element hplace
    rw [List.append_assoc] at helement
    exact ⟨_, .mismatch helement hvalue fun hprofile => nomatch hprofile⟩
  | @repeated key paths hkey hbound =>
    -- the key is found among the entries in front
    obtain ⟨⟨key, other⟩, hother, rfl⟩ := List.mem_map.1 hbound
    obtain ⟨earlier, hearlier⟩ := List.getElem?_of_mem (List.mem_of_mem_filter hother)
    have hbefore : earlier < before.length := List.getElem?_eq_some_iff.1 hearlier |>.1
    have hearlier' : entries[earlier]? = some (key, other) := by
      rw [hentries, List.getElem?_append_left hbefore]
      exact hearlier
    exact ⟨_, .boundTwice hstands rfl hentry hkey hearlier' hbefore⟩

/-- Without a fault, the last name of a profile that has none is null or empty. -/
theorem last_of_faultless (hfaultless : ∀ other, ¬ FirstFault location entries other)
    (hunnamed : ¬ Named entries) {value : Json}
    (hlast : lastValue? entries profileKey = some value) :
    value = .null ∨ value = .string "" := by
  cases hdraft : entries.foldlM (Draft.add ⟨.object entries, location⟩) Draft.empty with
  | error other => exact absurd ((foldlM_add_eq_error _).1 hdraft) (hfaultless other)
  | ok draft =>
    obtain ⟨names, bound, hnames, -, -⟩ := Draft.foldlM_add_eq_ok.1 hdraft
    have hvalues := hlast
    rw [lastValue?, hnames, List.getLast?_map] at hvalues
    obtain ⟨name, -, rfl⟩ := Option.map_eq_some_iff.1 hvalues
    -- the last name is null, empty or the name of the profile
    cases name with
    | none => exact .inl rfl
    | some text =>
      right
      by_contra hne
      exact hunnamed ⟨text, hlast, fun hempty => hne (congrArg Json.string hempty)⟩

/-- The bindings of a profile fail for the first fault among their entries, or for the profile that
they lack. -/
theorem readsPart : ReadsPart .bindings ofNode := by
  intro document location value hstands
  cases value with
  | object entries =>
    intro error h
    rcases ofNode_eq_error.1 h with ⟨before, entry, after, hentries, hfault, -⟩ |
      ⟨hfaultless, hunnamed, rfl⟩
    · exact hfault.atFault hstands hentries
    · exact ⟨location, .unnamed hstands fun _ => last_of_faultless hfaultless hunnamed⟩
  | null | boolean | number | string | array =>
    apply justified_of_mismatch hstands (by decide)
    intro error h
    exact ⟨fun hkind => (nomatch hkind), (Except.error.inj h).symm⟩

end ProfileBindings

theorem ActionSet.readsPart : ReadsPart .actionSet ofNode := by
  intro document location value hstands
  refine .property hstands (by decide) readsPart_text fun name => ?_
  refine .property hstands (by decide) readsPart_text fun localizedName => ?_
  refine .property hstands (by decide) readsPart_priority fun priority => ?_
  refine .property_list hstands (by decide) Action.readsPart fun actions => ?_
  refine .property_list hstands (by decide) ProfileBindings.readsPart fun profiles => ?_
  exact .ok _

/-- A manifest fails for a fault of its list, or of one of its sets. -/
theorem Manifest.readsPart :
    ReadsPart .manifest fun node => node.property "actionSets" >>= fun found =>
      found.elements >>= fun nodes => nodes.mapM ActionSet.ofNode >>= fun actionSets =>
        pure (⟨actionSets⟩ : Manifest) := by
  intro document location value hstands
  exact .property_list hstands (by decide) ActionSet.readsPart fun actionSets => .ok _

/-- A document that is not a manifest has a value at fault. -/
theorem Manifest.ofJson_faults {document : Json} {error : ReadError}
    (h : ofJson document = .error error) : ∃ location, AtFault document location error :=
  readsPart document [] document .root error h

/-- A manifest whose text is valid is refused only for a value of its document that is at fault,
and the message names the place where this value stands. -/
theorem Manifest.read_faults {text : String} {document : Json} {error : ReadError}
    (hdocument : Json.read (Json.Relaxed.toStrict text) = .ok document)
    (h : read text = .error error) :
    ∃ location place, AtFault document location error ∧ location.WrittenAs place ∧
      ∃ before after, error.message = before ++ "`" ++ place ++ "`" ++ after := by
  have hofJson : ofJson document = .error error := by
    rw [read, hdocument] at h
    exact h
  obtain ⟨location, hfault⟩ := ofJson_faults hofJson
  exact ⟨location, location.describe, hfault, location.writtenAs_describe, hfault.message⟩

/-- The sets under the second spelling of `actionSets` count, and of the only set the second
spelling of its name, which is a number. -/
theorem Manifest.read_faults_secondSpelling :
    ∃ text document error location place,
      Json.read (Json.Relaxed.toStrict text) = .ok document ∧ read text = .error error ∧
      AtFault document location error ∧ location.WrittenAs place ∧
      location = [.property "actionSets", .element 0, .property "name"] ∧
      error = .mismatch location .string .number ∧
      error.message = "Malformed input at `actionSets[0].name`: " ++
        "expected a string but got a number" := by
  let text := "\x7b\"actionSets\":1,\"ActionSets\":[\x7b\"name\":\"\",\"NAME\":2\x7d]\x7d"
  have hread : read text = .error (.mismatch
      [.property "actionSets", .element 0, .property "name"] .string .number) := by
    decide +kernel
  cases hdocument : Json.read (Json.Relaxed.toStrict text) with
  | error fault =>
    rw [read, hdocument] at hread
    cases hread
  | ok document =>
    obtain ⟨location, place, hfault, hplace, -⟩ := read_faults hdocument hread
    have hlocation := (Option.some.inj hfault.location?_eq).symm
    refine ⟨text, document, _, location, place, hdocument, hread, hfault, hplace, hlocation, ?_, ?_⟩
    · rw [hlocation]
    · decide +kernel

end XrManifest
