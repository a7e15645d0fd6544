import Mathlib
import XrManifest.Naming.Style

/-!
# The characters of an identifier

Whatever text a name has, the identifier made of it has no other characters than letters,
digits and underscores. The main statement is `Style.mem_rename`.
-/

namespace XrManifest.Naming

open XrManifest.Text

variable {c : Char}

/-! ## Words -/

/-- The runs of a text hold the characters that are kept, in order. -/
theorem flatten_runs (keep : Char → Bool) (text : List Char) :
    (runs keep text).flatten = text.filter keep := by
  rw [runs, List.flatten_filter_not_isEmpty]
  induction text with
  | nil => rfl
  | cons c rest ih =>
    rw [List.splitOnP_cons_eq_if_modifyHead]
    cases hkeep : keep c with
    | false => simp [hkeep, ih]
    | true =>
      -- the character is put in front of the first run
      obtain ⟨run, runs, hruns⟩ := List.exists_cons_of_ne_nil
        (List.splitOnP_ne_nil (fun c => !keep c) rest)
      rw [hruns] at ih
      simp [hkeep, hruns, ← ih]

theorem flatten_extendFirst (c : Char) (words : List (List Char)) :
    (extendFirst c words).flatten = c :: words.flatten := by
  cases words <;> rfl

/-- The words of a run put together are the run. -/
theorem flatten_caseWordsFrom (seen : Cased) (run : List Char) :
    (caseWordsFrom seen run).flatten = run := by
  fun_induction caseWordsFrom seen run with
  | case1 => rfl
  | case2 => rfl
  | case3 seen c next rest _ ih => rw [List.flatten_cons, ih]; rfl
  | case4 seen c next rest _ _ ih => rw [List.flatten_cons, flatten_extendFirst, ih]; rfl
  | case5 seen c next rest _ _ ih => rw [flatten_extendFirst, ih]

/-- Cutting words keeps their characters. -/
theorem mem_flatten_caseWords {words : List (List Char)} :
    c ∈ (words.flatMap caseWords).flatten ↔ c ∈ words.flatten := by
  simp only [List.mem_flatten, List.mem_flatMap]
  constructor
  · rintro ⟨word, ⟨run, hrun, hword⟩, hc⟩
    refine ⟨run, hrun, ?_⟩
    rw [← flatten_caseWordsFrom .none run]
    exact List.mem_flatten.2 ⟨word, hword, hc⟩
  · rintro ⟨run, hrun, hc⟩
    rw [← flatten_caseWordsFrom .none run] at hc
    obtain ⟨word, hword, hc⟩ := List.mem_flatten.1 hc
    exact ⟨word, ⟨run, hrun, hword⟩, hc⟩

/-! ## Separated words -/

/-- A character between words or in them is all that there is. -/
theorem mem_of_mem_intercalate {separator : List Char} {words : List (List Char)}
    (h : c ∈ separator.intercalate words) : c ∈ separator ∨ c ∈ words.flatten := by
  induction words with
  | nil => cases h
  | cons word words ih =>
    cases words with
    | nil =>
      rw [List.intercalate_singleton] at h
      exact .inr (List.mem_flatten.2 ⟨word, List.mem_cons_self, h⟩)
    | cons next words =>
      rw [List.intercalate_cons_cons, List.mem_append, List.mem_append] at h
      rw [List.flatten_cons, List.mem_append]
      rcases h with (hword | hseparator) | hrest
      · exact .inr (.inl hword)
      · exact .inl hseparator
      · exact (ih hrest).imp_right .inr

theorem mem_intercalate_of_mem {separator : List Char} {words : List (List Char)}
    (h : c ∈ words.flatten) : c ∈ separator.intercalate words := by
  induction words with
  | nil => cases h
  | cons word words ih =>
    rw [List.flatten_cons, List.mem_append] at h
    cases words with
    | nil =>
      rw [List.intercalate_singleton]
      exact h.resolve_right (by simp)
    | cons next words =>
      rw [List.intercalate_cons_cons, List.mem_append, List.mem_append]
      exact h.imp .inl ih

/-! ## Letters and digits -/

theorem toNat_lt_of_isAlphanum (h : c.isAlphanum = true) : c.toNat < 128 := by
  have hz : 'z'.toNat = 122 := rfl
  have hZ : 'Z'.toNat = 90 := rfl
  have h9 : '9'.toNat = 57 := rfl
  simp only [Char.isAlphanum, Char.isAlpha, Char.isUpper, Char.isLower, Char.isDigit,
    Bool.or_eq_true, Bool.and_eq_true, decide_eq_true_eq, UInt32.le_iff_toNat_le, ge_iff_le,
    Char.toNat_val] at h
  omega

/-- The letters and digits of ASCII are letters and digits. -/
theorem isAlphanumeric_of_isAlphanum (h : c.isAlphanum = true) : isAlphanumeric c = true := by
  rw [isAlphanumeric, if_pos (toNat_lt_of_isAlphanum h)]
  exact h

theorem isAlphanumeric_of_isAlpha (h : c.isAlpha = true) : isAlphanumeric c = true := by
  apply isAlphanumeric_of_isAlphanum
  rw [Char.isAlphanum, h, Bool.true_or]

/-- A letter stays one when its case changes. -/
theorem isAlphanumeric_toUpper (h : isAlphanumeric c = true) :
    isAlphanumeric c.toUpper = true := by
  by_cases hlower : c.isLower
  · apply isAlphanumeric_of_isAlpha
    rw [Char.isAlpha_toUpper_eq_isAlpha, Char.isAlpha, hlower, Bool.or_true]
  · rw [Char.toUpper_eq_of_not_isLower hlower]
    exact h

theorem isAlphanumeric_toLower (h : isAlphanumeric c = true) :
    isAlphanumeric c.toLower = true := by
  by_cases hupper : c.isUpper
  · apply isAlphanumeric_of_isAlpha
    rw [Char.isAlpha_toLower_eq_isAlpha, Char.isAlpha, hupper, Bool.true_or]
  · rw [Char.toLower_eq_of_not_isUpper hupper]
    exact h

/-! ## Identifiers -/

/-- Whether a character can be in an identifier: a letter or digit of any script, or the
underscore. -/
def isIdentifierChar (c : Char) : Bool := isAlphanumeric c || c == '_'

/-- Only letters and digits are left in Pascal case. -/
theorem mem_pascalCase {text : List Char} (h : c ∈ pascalCase text) :
    isAlphanumeric c = true := by
  obtain ⟨run, hrun, hc⟩ := List.mem_flatMap.1 h
  have hkept : ∀ d ∈ run, isAlphanumeric d = true := by
    intro d hd
    have hmem : d ∈ text.filter isAlphanumeric := by
      rw [← flatten_runs]
      exact List.mem_flatten.2 ⟨run, hrun, hd⟩
    exact (List.mem_filter.1 hmem).2
  -- only the first character of a run changes
  cases run with
  | nil => cases hc
  | cons first rest =>
    rcases List.mem_cons.1 hc with rfl | hc
    · exact isAlphanumeric_toUpper (hkept first List.mem_cons_self)
    · exact hkept c (List.mem_cons_of_mem first hc)

theorem mem_camelCase {text : List Char} (h : c ∈ camelCase text) : isAlphanumeric c = true := by
  have hpascal : ∀ d ∈ pascalCase text, isAlphanumeric d = true := fun d hd => mem_pascalCase hd
  unfold camelCase at h
  cases htext : pascalCase text with
  | nil =>
    rw [htext] at h
    cases h
  | cons first rest =>
    rw [htext] at h hpascal
    rcases List.mem_cons.1 h with rfl | hc
    · exact isAlphanumeric_toLower (hpascal first List.mem_cons_self)
    · exact hpascal c (List.mem_cons_of_mem first hc)

/-- The characters of the words in snake case are those that are kept, before they are put in
lower case. -/
theorem mem_flatten_snakeWords {text : List Char} :
    c ∈ (((runs Char.isAlphanum text).flatMap caseWords).map (List.map Char.toLower)).flatten ↔
      ∃ d ∈ text, d.isAlphanum = true ∧ d.toLower = c := by
  rw [← List.map_flatten, List.mem_map]
  simp only [mem_flatten_caseWords, flatten_runs, List.mem_filter, and_assoc]

/-- Snake case has underscores between words as well. -/
theorem mem_snakeCase {text : List Char} (h : c ∈ snakeCase text) :
    isAlphanumeric c = true ∨ c = '_' := by
  rcases mem_of_mem_intercalate h with hunderscore | hword
  · exact .inr (List.mem_singleton.1 hunderscore)
  · obtain ⟨d, -, hd, rfl⟩ := mem_flatten_snakeWords.1 hword
    exact .inl (isAlphanumeric_toLower (isAlphanumeric_of_isAlphanum hd))

namespace Style

/-- An identifier has no other characters than letters, digits and underscores. -/
theorem mem_rename {style : Style} {fragments : List String}
    (h : c ∈ (style.rename fragments).toList) : isIdentifierChar c = true := by
  rw [rename, String.toList_ofList] at h
  rw [isIdentifierChar, Bool.or_eq_true, beq_iff_eq]
  cases style with
  | pascal => exact .inl (mem_pascalCase h)
  | camel => exact .inl (mem_camelCase h)
  | snake => exact mem_snakeCase h

/-- An identifier is not empty where its name has a letter or digit of ASCII. -/
theorem rename_ne_nil {style : Style} {fragments : List String}
    (hc : c ∈ (fragments.map String.toList).flatten) (h : c.isAlphanum = true) :
    (style.rename fragments).toList ≠ [] := by
  have hjoined : c ∈ joined fragments := mem_intercalate_of_mem hc
  have hkept : c ∈ (runs isAlphanumeric (joined fragments)).flatten := by
    rw [flatten_runs]
    exact List.mem_filter.2 ⟨hjoined, isAlphanumeric_of_isAlphanum h⟩
  have hpascal : pascalCase (joined fragments) ≠ [] := by
    obtain ⟨run, hrun, hc⟩ := List.mem_flatten.1 hkept
    intro hnil
    have hempty := List.flatMap_eq_nil_iff.1 hnil run hrun
    cases run with
    | nil => cases hc
    | cons first rest => cases hempty
  rw [rename, String.toList_ofList]
  -- the character survives in each style, if with another case
  cases style with
  | pascal => exact hpascal
  | camel =>
    intro hnil
    apply hpascal
    change uncapitalized (pascalCase (joined fragments)) = [] at hnil
    cases htext : pascalCase (joined fragments) with
    | nil => rfl
    | cons first rest =>
      rw [htext] at hnil
      cases hnil
  | snake =>
    have hword := mem_flatten_snakeWords.2 ⟨c, hjoined, h, rfl⟩
    exact List.ne_nil_of_mem (mem_intercalate_of_mem hword)

end Style
end XrManifest.Naming
