import XrManifest.Proofs.Manifest.Layouts

/-!
# Reading documents

What the readers of values and of properties accept, wherever a value stands in its
document. `Located.Reads` says it of a reader; the main statement is
`property_bind_eq_ok`, for a property that is looked up and read.
-/

namespace XrManifest

open XrManifest.Text

/-! ## Values -/

namespace Located

variable {node child : Located} {name : String}

theorem entries_eq_ok {expected : Expected} {entries : List (String × Json)} :
    node.entries expected = .ok entries ↔ node.value = .object entries := by
  cases h : node.value <;> simp [Located.entries, h]

theorem string_eq_ok {text : String} : node.string = .ok text ↔ node.value = .string text := by
  cases h : node.value <;> simp [Located.string, h]

theorem boolean_eq_ok {value : Bool} :
    node.boolean = .ok value ↔ node.value = .boolean value := by
  cases h : node.value <;> simp [Located.boolean, h]

/-- The elements of an array stand at their numbers. -/
theorem elements_eq_ok {nodes : List Located} :
    node.elements = .ok nodes ↔ ∃ values, node.value = .array values ∧
      values.mapIdx (fun index value => ⟨value, node.location ++ [.element index]⟩) = nodes := by
  cases h : node.value <;> simp [Located.elements, h]

/-- A number is an integer of 64 bits only when it is written as one, and is in range. -/
theorem toInt64?_eq_some {number : Json.Number} {m : Int} :
    number.toInt64? = some m ↔ number = .integer m ∧
      Int64.minValue.toInt ≤ m ∧ m ≤ Int64.maxValue.toInt := by
  cases number with
  | integer value =>
    rw [Json.Number.toInt64?, Option.ite_none_right_eq_some, Json.Number.integer.injEq]
    constructor
    · rintro ⟨hrange, hvalue⟩
      rcases Option.some.inj hvalue with rfl
      exact ⟨rfl, hrange⟩
    · rintro ⟨rfl, hrange⟩
      exact ⟨hrange, rfl⟩
  | decimal => simp [Json.Number.toInt64?]

/-- The integers of 32 bits are read, written without a fraction or an exponent. -/
theorem int32?_eq_some {value : Json} {n : Int32} :
    int32? value = some n ↔ value = .number (.integer n.toInt) := by
  have hshort : Int32.minValue.toInt ≤ n.toInt ∧ n.toInt ≤ Int32.maxValue.toInt :=
    ⟨n.minValue_le_toInt, n.toInt_le⟩
  -- an integer of 32 bits passes the check for 64 bits
  have hmin : Int64.minValue.toInt ≤ Int32.minValue.toInt := by decide
  have hmax : Int32.maxValue.toInt ≤ Int64.maxValue.toInt := by decide
  cases value with
  | number number =>
    constructor
    · intro h
      rcases Option.bind_eq_some_iff.1 h with ⟨m, hm, hshort⟩
      rcases toInt64?_eq_some.1 hm with ⟨rfl, -⟩
      by_cases hfits : Int32.minValue.toInt ≤ m ∧ m ≤ Int32.maxValue.toInt
      · rw [dif_pos hfits] at hshort
        rw [← Option.some.inj hshort, Int32.toInt_ofIntLE]
      · rw [dif_neg hfits] at hshort
        cases hshort
    · intro h
      have hlong : number.toInt64? = some n.toInt :=
        toInt64?_eq_some.2 ⟨Json.number.inj h, by omega, by omega⟩
      refine Option.bind_eq_some_iff.2 ⟨n.toInt, hlong, ?_⟩
      rw [dif_pos hshort, Int32.ofIntLE_toInt]
  | _ => simp [int32?]

/-- A number of 32 bits is read from the integer that has its value. -/
theorem int32_eq_ok {n : Int32} :
    node.int32 = .ok n ↔ node.value = .number (.integer n.toInt) := by
  rw [← int32?_eq_some, Located.int32]
  cases int32? node.value <;> simp

/-- The reader takes the documents that are related to a result, wherever they stand, and
yields this result. -/
def Reads {α : Type} (read : Located → Except ReadError α) (related : α → Json → Prop) : Prop :=
  ∀ node a, read node = .ok a ↔ related a node.value

theorem reads_string : Reads string fun text value => value = .string text :=
  fun _ _ => string_eq_ok

theorem reads_int32 : Reads int32 fun n value => value = .number (.integer n.toInt) :=
  fun _ _ => int32_eq_ok

/-- The spellings of a kind of action are those that are read as this kind. -/
theorem reads_actionType :
    Reads actionType fun type value => ∃ text, type.SpelledBy text ∧ value = .string text := by
  intro node type
  -- no two names of kinds are the same but for case
  have hspelled : ∀ text, ActionType.ofName? text = some type ↔ type.SpelledBy text :=
    fun text => findFolded?_eq_some (by decide)
  constructor
  · intro h
    rcases bind_eq_ok.1 h with ⟨text, htext, h⟩
    refine ⟨text, (hspelled text).1 ?_, string_eq_ok.1 htext⟩
    cases hname : ActionType.ofName? text with
    | none => rw [hname] at h; cases h
    | some found =>
      rw [hname] at h
      exact congrArg some (Except.ok.inj h)
  · rintro ⟨text, htype, htext⟩
    refine bind_eq_ok.2 ⟨text, string_eq_ok.2 htext, ?_⟩
    rw [(hspelled text).2 htype]
    rfl

/-- The elements of an array are read one by one. -/
theorem reads_elements {α : Type} {read : Located → Except ReadError α}
    {related : α → Json → Prop} (hread : Reads read related) :
    Reads (fun node => node.elements >>= fun nodes => nodes.mapM read) fun as value =>
      ∃ values, value = .array values ∧ List.Forall₂ related as values := by
  intro node as
  -- where the elements stand makes no difference to what is read
  have hplace : ∀ place : Nat → Json → Located,
      (∀ index value, (place index value).value = value) → ∀ values,
        (values.mapIdx place).mapM read = .ok as ↔ List.Forall₂ related as values := by
    intro place hvalue values
    rw [mapM_eq_ok, List.forall₂_iff_get, List.forall₂_iff_get]
    simp only [List.length_mapIdx, List.get_eq_getElem, List.getElem_mapIdx, hread _ _, hvalue]
    constructor
    · rintro ⟨hlength, h⟩
      exact ⟨hlength.symm, fun i ha hv => h i hv ha⟩
    · rintro ⟨hlength, h⟩
      exact ⟨hlength.symm, fun i hv ha => h i ha hv⟩
  constructor
  · intro h
    rcases bind_eq_ok.1 h with ⟨nodes, hnodes, h⟩
    rcases elements_eq_ok.1 hnodes with ⟨values, hvalues, rfl⟩
    exact ⟨values, hvalues, (hplace _ (fun _ _ => rfl) values).1 h⟩
  · rintro ⟨values, hvalues, h⟩
    exact bind_eq_ok.2 ⟨_, elements_eq_ok.2 ⟨values, hvalues, rfl⟩,
      (hplace _ (fun _ _ => rfl) values).2 h⟩

/-! ## Properties -/

/-- The last property of the name is the one that is left among the latest. -/
theorem lastFolded?_eq (entries : List (String × Json)) (name : String) :
    ((lastFolded? entries name).map Prod.snd).toList = valuesOf (latest entries) name := by
  rw [valuesOf_latest, valuesOf, List.getLast?_map, lastFolded?]

/-- Looking a property up finds the one that is left among the latest, or none. -/
theorem property?_eq_ok {found : Option Located} :
    node.property? name = .ok found ↔ ∃ entries, node.value = .object entries ∧
      ∃ value : Option Json, valuesOf (latest entries) name = value.toList ∧
        found = value.map (node.child name) := by
  have hlast : ∀ entries, (lastFolded? entries name).map (fun entry => node.child name entry.2) =
      ((lastFolded? entries name).map Prod.snd).map (node.child name) :=
    fun entries => (Option.map_map (node.child name) Prod.snd _).symm
  constructor
  · intro h
    rcases bind_eq_ok.1 h with ⟨entries, hentries, h⟩
    refine ⟨entries, entries_eq_ok.1 hentries, _, (lastFolded?_eq entries name).symm, ?_⟩
    rw [← Except.ok.inj h, hlast]
  · rintro ⟨entries, hentries, value, hvalue, rfl⟩
    refine bind_eq_ok.2 ⟨entries, entries_eq_ok.2 hentries, ?_⟩
    rw [← lastFolded?_eq] at hvalue
    have hsame : (lastFolded? entries name).map Prod.snd = value := by
      simpa using congrArg List.head? hvalue
    rw [hlast, hsame]
    rfl

/-- A property is the only one of its name that no later one overrides. -/
theorem property_eq_ok :
    node.property name = .ok child ↔ ∃ entries, node.value = .object entries ∧
      ∃ value, valuesOf (latest entries) name = [value] ∧ child = node.child name value := by
  constructor
  · intro h
    rcases bind_eq_ok.1 h with ⟨found, hfound, h⟩
    rcases property?_eq_ok.1 hfound with ⟨entries, hentries, value, hvalue, rfl⟩
    cases value with
    | none => cases h
    | some value => exact ⟨entries, hentries, value, hvalue, (Except.ok.inj h).symm⟩
  · rintro ⟨entries, hentries, value, hvalue, rfl⟩
    refine bind_eq_ok.2 ⟨some (node.child name value), ?_, rfl⟩
    exact property?_eq_ok.2 ⟨entries, hentries, some value, hvalue, rfl⟩

/-- Nothing but an object has a property. -/
theorem object_of_property_bind {β : Type} {next : Located → Except ReadError β} {b : β}
    (h : node.property name >>= next = .ok b) : ∃ entries, node.value = .object entries := by
  rcases bind_eq_ok.1 h with ⟨found, hfound, -⟩
  rcases property_eq_ok.1 hfound with ⟨entries, hentries, -⟩
  exact ⟨entries, hentries⟩

/-- A property that an object has to have is found and read. -/
theorem property_bind_eq_ok {α β : Type} {read : Located → Except ReadError α}
    {next : α → Except ReadError β} {b : β} {entries : List (String × Json)}
    {related : α → Json → Prop} (hentries : node.value = .object entries)
    (hread : Reads read related) :
    (node.property name >>= fun found => read found >>= next) = .ok b ↔
      ∃ a value, valuesOf (latest entries) name = [value] ∧ related a value ∧
        next a = .ok b := by
  constructor
  · intro h
    rcases bind_eq_ok.1 h with ⟨found, hfound, hrest⟩
    rcases bind_eq_ok.1 hrest with ⟨a, ha, hnext⟩
    rcases property_eq_ok.1 hfound with ⟨entries', hentries', value, hvalue, rfl⟩
    -- both are the entries of the one object
    rcases Json.object.inj (hentries.symm.trans hentries') with rfl
    exact ⟨a, value, hvalue, (hread _ a).1 ha, hnext⟩
  · rintro ⟨a, value, hvalue, ha, h⟩
    refine bind_eq_ok.2 ⟨_, property_eq_ok.2 ⟨entries, hentries, value, hvalue, rfl⟩, ?_⟩
    exact bind_eq_ok.2 ⟨a, (hread _ a).2 ha, h⟩

/-- A string that an object has to have is read. -/
theorem property_string_eq_ok {β : Type} {next : String → Except ReadError β} {b : β}
    {entries : List (String × Json)} (hentries : node.value = .object entries) :
    (node.property name >>= fun found => found.string >>= next) = .ok b ↔
      ∃ text, valuesOf (latest entries) name = [.string text] ∧ next text = .ok b := by
  rw [property_bind_eq_ok hentries reads_string]
  constructor
  · rintro ⟨text, _, hvalue, rfl, h⟩
    exact ⟨text, hvalue, h⟩
  · rintro ⟨text, hvalue, h⟩
    exact ⟨text, _, hvalue, rfl, h⟩

/-- A list that an object has to have is read. -/
theorem property_list_eq_ok {α β : Type} {read : Located → Except ReadError α}
    {next : List α → Except ReadError β} {b : β} {entries : List (String × Json)}
    {related : α → Json → Prop} (hentries : node.value = .object entries)
    (hread : Reads read related) :
    (node.property name >>= fun found =>
      found.elements >>= fun nodes => nodes.mapM read >>= next) = .ok b ↔
      ∃ as, Lists (latest entries) name related as ∧ next as = .ok b := by
  -- the elements are read before anything else, so the list counts as one value
  have hassoc : (node.property name >>= fun found =>
      found.elements >>= fun nodes => nodes.mapM read >>= next) =
      node.property name >>= fun found =>
        (found.elements >>= fun nodes => nodes.mapM read) >>= next := by
    simp only [bind_assoc]
  rw [hassoc, property_bind_eq_ok hentries (reads_elements hread)]
  constructor
  · rintro ⟨as, value, hvalue, ⟨values, rfl, hrelated⟩, h⟩
    exact ⟨as, ⟨values, hvalue, hrelated⟩, h⟩
  · rintro ⟨as, ⟨values, hvalue, hrelated⟩, h⟩
    exact ⟨as, .array values, hvalue, ⟨values, rfl, hrelated⟩, h⟩

end Located

end XrManifest
