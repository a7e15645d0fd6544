import XrManifest.Proofs.Naming.Letters
import XrManifest.Proofs.Naming.Runs

/-!
# Identifiers as names

An identifier is itself a name, and taken as one it stays as it is: pascal and camel case see
one word in it, and snake case sees the words that it was made of, because none of them has an
upper-case letter where another could start. The main statement is `Style.rename_rename`.
-/

namespace XrManifest.Naming

open XrManifest.Text

/-! ## Pascal and camel case -/

/-- A text of letters and digits is one word in pascal case. -/
theorem pascalCase_of_all {word : List Char} (hall : ∀ c ∈ word, isAlphanumeric c = true) :
    pascalCase word = capitalized word := by
  by_cases hne : word = []
  · subst hne
    rfl
  · rw [pascalCase, runs_of_all hne hall, List.flatMap_singleton]

/-- Pascal case is kept. -/
theorem pascalCase_pascalCase (text : List Char) :
    pascalCase (pascalCase text) = pascalCase text := by
  rw [pascalCase_of_all fun c hc => mem_pascalCase hc, capitalized_pascalCase]

/-- What camel case does to the first character, pascal case undoes. -/
theorem pascalCase_camelCase (text : List Char) :
    pascalCase (camelCase text) = pascalCase text := by
  rw [pascalCase_of_all fun c hc => mem_camelCase hc, camelCase, capitalized_uncapitalized,
    capitalized_pascalCase]

/-- A text in Pascal case has the camel case that it was to have. -/
theorem camelCase_pascalCase (text : List Char) :
    camelCase (pascalCase text) = camelCase text := by
  rw [camelCase, pascalCase_pascalCase, camelCase]

/-- Camel case is kept. -/
theorem camelCase_camelCase (text : List Char) :
    camelCase (camelCase text) = camelCase text := by
  rw [camelCase, pascalCase_camelCase, camelCase]

/-! ## Snake case -/

/-- A word of an identifier in snake case: lower-case letters and digits, at least one. -/
structure IsLowerWord (word : List Char) : Prop where
  ne_nil : word ≠ []
  lower : ∀ c ∈ word, c.isLower = true ∨ c.isDigit = true

theorem lower_or_digit_toLower {c : Char} (h : c.isAlphanum = true) :
    c.toLower.isLower = true ∨ c.toLower.isDigit = true := by
  rw [← isAlphanum_toLower, Char.isAlphanum, Char.isAlpha, Char.isUpper_toLower_eq_false,
    Bool.false_or, Bool.or_eq_true] at h
  exact h

/-- The words of snake case are in lower case. -/
theorem isLowerWord_of_mem_snakeWords {text word : List Char} (h : word ∈ snakeWords text) :
    IsLowerWord word := by
  refine ⟨ne_nil_of_mem_snakeWords h, ?_⟩
  intro c hc
  obtain ⟨d, -, hd, rfl⟩ := mem_flatten_snakeWords.1 (List.mem_flatten.2 ⟨word, h, hc⟩)
  exact lower_or_digit_toLower hd

namespace IsLowerWord

variable {word : List Char} (hword : IsLowerWord word)
include hword

theorem isAlphanum {c : Char} (hc : c ∈ word) : c.isAlphanum = true := by
  rcases hword.lower c hc with h | h
  · rw [Char.isAlphanum, Char.isAlpha, h, Bool.or_true, Bool.true_or]
  · rw [Char.isAlphanum, h, Bool.or_true]

theorem not_isUpper {c : Char} (hc : c ∈ word) : c.isUpper = false := by
  rcases hword.lower c hc with h | h
  · simpa using Char.not_isUpper_of_isLower h
  · rw [Bool.eq_false_iff]
    intro hupper
    simp only [Char.isDigit, Char.isUpper, Bool.and_eq_true, decide_eq_true_eq,
      UInt32.le_iff_toNat_le, ge_iff_le] at h hupper
    have h9 : '9'.val.toNat = 57 := rfl
    have hA : 'A'.val.toNat = 65 := rfl
    omega

/-- A word in lower case stays as it is. -/
theorem map_toLower : word.map Char.toLower = word := by
  have hsame : ∀ c ∈ word, c.toLower = id c := by
    intro c hc
    exact Char.toLower_eq_of_not_isUpper (by simp [hword.not_isUpper hc])
  rw [List.map_congr_left hsame, List.map_id]

end IsLowerWord

/-- Without an upper-case letter a run is one word. -/
theorem caseWordsFrom_of_not_upper (seen : Cased) {word : List Char}
    (hword : ∀ c ∈ word, c.isUpper = false) : caseWordsFrom seen word = [word] := by
  fun_induction caseWordsFrom seen word with
  | case1 => rfl
  | case2 => rfl
  | case3 seen c next rest hends _ =>
    -- without capitals there is nowhere to cut
    have hnext : next.isUpper = false := hword next (by simp)
    rw [hnext] at hends
    cases hends.2
  | case4 seen c next rest _ hends _ =>
    have hc : c.isUpper = false := hword c (by simp)
    rw [hc] at hends
    cases hends.2.1
  | case5 seen c next rest _ _ ih =>
    rw [ih fun d hd => hword d (List.mem_cons_of_mem c hd)]
    rfl

/-- The words of a text in snake case are found again behind their underscores. -/
theorem snakeWords_intercalate {words : List (List Char)}
    (hwords : ∀ word ∈ words, IsLowerWord word) :
    snakeWords (['_'].intercalate words) = words := by
  have hjoined : joined (words.map String.ofList) = ['_'].intercalate words := by
    simp [joined, Function.comp_def]
  have hword : ∀ word ∈ words, snakeWords word = [word] := by
    intro word hmem
    have hlower := hwords word hmem
    rw [snakeWords, runs_of_all hlower.ne_nil fun c hc => hlower.isAlphanum hc,
      List.flatMap_singleton, caseWords,
      caseWordsFrom_of_not_upper _ fun c hc => hlower.not_isUpper hc, List.map_singleton,
      hlower.map_toLower]
  rw [← hjoined, snakeWords, runs_joined rfl, List.flatMap_assoc, List.map_flatMap,
    List.flatMap_map]
  calc words.flatMap (fun word => ((runs Char.isAlphanum (String.ofList word).toList).flatMap
        caseWords).map (List.map Char.toLower))
      = words.flatMap fun word => [word] := by
        apply List.flatMap_congr
        intro word hmem
        rw [String.toList_ofList]
        exact hword word hmem
    _ = words := List.flatMap_singleton' words

/-- Snake case is kept: no new word starts in lower case. -/
theorem snakeCase_snakeCase (text : List Char) : snakeCase (snakeCase text) = snakeCase text := by
  have hwords : snakeWords (snakeCase text) = snakeWords text :=
    snakeWords_intercalate fun word h => isLowerWord_of_mem_snakeWords h
  calc snakeCase (snakeCase text)
      = ['_'].intercalate (snakeWords (snakeCase text)) := rfl
    _ = snakeCase text := by rw [hwords]; rfl

/-! ## Styles -/

namespace Style

/-- The identifier of one fragment. -/
theorem toList_rename_singleton (style : Style) (text : String) :
    (style.rename [text]).toList = style.convert text.toList := by
  simp [rename, joined]

/-- Renaming is a normal form: an identifier is its own name in every style, and pascal and
camel case do not see which of the two a name has been put in before. -/
theorem rename_rename :
    (∀ (style : Style) (fragments : List String),
      style.rename [style.rename fragments] = style.rename fragments) ∧
    ∀ fragments : List String,
      pascal.rename [camel.rename fragments] = pascal.rename fragments ∧
      camel.rename [pascal.rename fragments] = camel.rename fragments := by
  refine ⟨fun style fragments => ?_, fun fragments => ⟨?_, ?_⟩⟩
  · rw [← String.toList_inj, toList_rename_singleton, rename, String.toList_ofList]
    -- each style keeps what it gave
    cases style with
    | pascal => exact pascalCase_pascalCase _
    | camel => exact camelCase_camelCase _
    | snake => exact snakeCase_snakeCase _
  · rw [← String.toList_inj, toList_rename_singleton, rename, rename, String.toList_ofList,
      String.toList_ofList]
    exact pascalCase_camelCase _
  · rw [← String.toList_inj, toList_rename_singleton, rename, rename, String.toList_ofList,
      String.toList_ofList]
    exact camelCase_pascalCase _

end Style
end XrManifest.Naming
