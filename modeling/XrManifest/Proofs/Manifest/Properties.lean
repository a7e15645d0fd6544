import Mathlib.Data.List.Basic
import XrManifest.Json.Value
import XrManifest.Text.CaseFolding

/-!
# Properties of objects

The properties of an object by name, in any case of the letters, and the object that is
left when the properties that a later one overrides are gone. The main statement is
`valuesOf_latest`: of the properties with one name, the last is left.
-/

namespace XrManifest

open XrManifest.Text

/-! ## Names in any case -/

/-- Texts are the same in some case exactly when they are in lower case. -/
theorem sameFolded_iff {left right : String} :
    sameFolded left right = true ↔ folded left = folded right :=
  beq_iff_eq

/-- Texts that differ in case only are like the same texts. -/
theorem sameFolded_congr_right {left right : String} (h : sameFolded left right = true)
    (text : String) : sameFolded text left = sameFolded text right := by
  rw [sameFolded, sameFolded, sameFolded_iff.1 h]

/-- A text cannot be like two names that differ in more than case. -/
theorem sameFolded_eq_false {left right text : String} (hne : sameFolded left right = false)
    (h : sameFolded text left = true) : sameFolded text right = false := by
  rw [sameFolded, sameFolded_iff.1 h]
  exact hne

/-- In a table where spellings of one text stand for one value, a text is found when it is
one of the spellings in some case. -/
theorem findFolded?_eq_some {α : Type} {table : List (String × α)} {text : String} {a : α}
    (hunique : ∀ first ∈ table, ∀ second ∈ table,
      sameFolded first.1 second.1 = true → first.2 = second.2) :
    findFolded? table text = some a ↔
      ∃ name, (name, a) ∈ table ∧ sameFolded name text = true := by
  have hlike : ∀ entry ∈ table, ∀ name b, (name, b) ∈ table →
      sameFolded entry.1 text = true → sameFolded name text = true → entry.2 = b := by
    intro entry hentry name b hname hfirst hsecond
    have hsame : sameFolded entry.1 name = true :=
      sameFolded_iff.2 ((sameFolded_iff.1 hfirst).trans (sameFolded_iff.1 hsecond).symm)
    exact hunique entry hentry (name, b) hname hsame
  constructor
  · intro h
    rcases Option.map_eq_some_iff.1 h with ⟨⟨name, b⟩, hfind, rfl⟩
    exact ⟨name, List.mem_of_find?_eq_some hfind, by simpa using List.find?_some hfind⟩
  · rintro ⟨name, hmem, hsame⟩
    cases hfind : table.find? fun entry => sameFolded entry.1 text with
    | none => exact absurd hsame (by simpa using List.find?_eq_none.1 hfind _ hmem)
    | some entry =>
      have hentry := List.mem_of_find?_eq_some hfind
      have hvalue := hlike entry hentry name a hmem (by simpa using List.find?_some hfind) hsame
      rw [findFolded?, hfind, Option.map_some, hvalue]

/-! ## The properties of one name -/

/-- The values of the properties whose name is `name` in some case. -/
def valuesOf (entries : List (String × Json)) (name : String) : List Json :=
  (entries.filter fun entry => sameFolded entry.1 name).map Prod.snd

theorem valuesOf_cons_of_same {key name : String} (h : sameFolded key name = true) (value : Json)
    (entries : List (String × Json)) :
    valuesOf ((key, value) :: entries) name = value :: valuesOf entries name := by
  simp [valuesOf, h]

theorem valuesOf_cons_of_ne {key name : String} (h : sameFolded key name = false) (value : Json)
    (entries : List (String × Json)) :
    valuesOf ((key, value) :: entries) name = valuesOf entries name := by
  simp [valuesOf, h]

/-- The entries that no later entry overrides. -/
def withoutOverridden (overrides : String → String → Bool) :
    List (String × Json) → List (String × Json)
  | [] => []
  | entry :: rest =>
    if rest.any fun later => overrides later.1 entry.1 then withoutOverridden overrides rest
    else entry :: withoutOverridden overrides rest

/-- The entries of an object whose name is not repeated later in some case. -/
def latest : List (String × Json) → List (String × Json) :=
  withoutOverridden sameFolded

/-- Of the entries that override each other, and are overridden by nothing else, the last
is left. -/
theorem filter_withoutOverridden_last {overrides : String → String → Bool}
    {p : String × Json → Bool}
    (h : ∀ later earlier : String × Json, p earlier = true → overrides later.1 earlier.1 = p later)
    (entries : List (String × Json)) :
    (withoutOverridden overrides entries).filter p = (entries.filter p).getLast?.toList := by
  induction entries with
  | nil => rfl
  | cons entry rest ih =>
    by_cases hp : p entry = true
    · -- the entry is overridden when one of its kind comes later
      have hany : (rest.any fun later => overrides later.1 entry.1) = rest.any p := by
        congr 1
        funext later
        exact h later entry hp
      rw [withoutOverridden, hany, List.filter_cons_of_pos hp, List.getLast?_cons]
      cases hlast : (rest.filter p).getLast? with
      | none =>
        have hnone : rest.any p = false := by
          rw [← Bool.not_eq_true, List.any_eq_true]
          rintro ⟨later, hmem, hlater⟩
          have hempty := List.getLast?_eq_none_iff.1 hlast
          exact List.not_mem_nil (hempty ▸ List.mem_filter.2 ⟨hmem, hlater⟩)
        rw [hnone, if_neg Bool.false_ne_true, List.filter_cons_of_pos hp, ih, hlast]
        rfl
      | some last =>
        have hsome : rest.any p = true := by
          have hmem := List.mem_filter.1 (List.mem_of_getLast? hlast)
          exact List.any_eq_true.2 ⟨last, hmem.1, hmem.2⟩
        rw [hsome, if_pos rfl, ih, hlast]
        rfl
    · rw [List.filter_cons_of_neg hp, ← ih, withoutOverridden]
      split
      · rfl
      · rw [List.filter_cons_of_neg hp]

/-- Entries that nothing overrides are left. -/
theorem filter_withoutOverridden_all {overrides : String → String → Bool}
    {p : String × Json → Bool}
    (h : ∀ later earlier : String × Json, p earlier = true → overrides later.1 earlier.1 = false)
    (entries : List (String × Json)) :
    (withoutOverridden overrides entries).filter p = entries.filter p := by
  induction entries with
  | nil => rfl
  | cons entry rest ih =>
    by_cases hp : p entry = true
    -- an entry that nothing overrides is kept
    · have hany : (rest.any fun later => overrides later.1 entry.1) = false := by
        rw [← Bool.not_eq_true, List.any_eq_true]
        rintro ⟨later, -, hover⟩
        rw [h later entry hp] at hover
        exact Bool.false_ne_true hover
      rw [withoutOverridden, hany, if_neg Bool.false_ne_true, List.filter_cons_of_pos hp,
        List.filter_cons_of_pos hp, ih]
    · rw [List.filter_cons_of_neg hp, ← ih, withoutOverridden]
      split
      · rfl
      · rw [List.filter_cons_of_neg hp]

/-- Of the properties with one name, the last is left. -/
theorem valuesOf_latest (entries : List (String × Json)) (name : String) :
    valuesOf (latest entries) name = (valuesOf entries name).getLast?.toList := by
  have hover : ∀ later earlier : String × Json, sameFolded earlier.1 name = true →
      sameFolded later.1 earlier.1 = sameFolded later.1 name :=
    fun later earlier h => sameFolded_congr_right h later.1
  have hfilter := filter_withoutOverridden_last
    (p := fun entry => sameFolded entry.1 name) hover entries
  rw [valuesOf, latest, hfilter, valuesOf, List.getLast?_map]
  cases (entries.filter fun entry => sameFolded entry.1 name).getLast? <;> rfl

/-- A property that is not repeated is left as it is. -/
theorem valuesOf_latest_singleton {entries : List (String × Json)} {name : String} {value : Json}
    (h : valuesOf entries name = [value]) : valuesOf (latest entries) name = [value] := by
  rw [valuesOf_latest, h]
  rfl

/-! ## Changing the value of a property -/

/-- Changes the values of the properties whose name is `name` in some case. -/
def mapProperty (name : String) (change : Json → Json) (entries : List (String × Json)) :
    List (String × Json) :=
  entries.map fun (key, value) => (key, if sameFolded key name then change value else value)

/-- Changing a property changes the values that are found under its name. -/
theorem valuesOf_mapProperty (name : String) (change : Json → Json)
    (entries : List (String × Json)) :
    valuesOf (mapProperty name change entries) name = (valuesOf entries name).map change := by
  induction entries with
  | nil => rfl
  | cons entry rest ih =>
    rw [valuesOf, mapProperty] at ih ⊢
    by_cases hname : sameFolded entry.1 name = true <;> simp_all [valuesOf]

/-- Properties with other names keep their values. -/
theorem valuesOf_mapProperty_of_ne {name other : String} (hne : sameFolded other name = false)
    (change : Json → Json) (entries : List (String × Json)) :
    valuesOf (mapProperty name change entries) other = valuesOf entries other := by
  induction entries with
  | nil => rfl
  | cons entry rest ih =>
    rw [valuesOf, mapProperty] at ih ⊢
    by_cases hother : sameFolded entry.1 other = true
    · have hname := sameFolded_eq_false hne hother
      simp_all [valuesOf]
    · simp_all [valuesOf]

end XrManifest
