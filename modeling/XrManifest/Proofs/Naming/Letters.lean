import XrManifest.Proofs.Naming.Characters

/-!
# The letters of an identifier

A style decides on the case of letters and on what stands between words. Apart from that, an
identifier keeps the letters and digits of its name, as far as they are in ASCII. The main
statement is `Style.letters_rename`.
-/

namespace XrManifest.Naming

open XrManifest.Text

/-- The letters and digits of ASCII in a text, in lower case. -/
def letters (text : List Char) : List Char := (text.filter Char.isAlphanum).map Char.toLower

theorem letters_append (first second : List Char) :
    letters (first ++ second) = letters first ++ letters second := by
  rw [letters, List.filter_append, List.map_append]
  rfl

theorem letters_flatten (words : List (List Char)) :
    letters words.flatten = words.flatMap letters := by
  induction words with
  | nil => rfl
  | cons word words ih => rw [List.flatten_cons, letters_append, ih, List.flatMap_cons]

/-- What is no letter or digit of ASCII makes no difference. -/
theorem letters_filter {keep : Char → Bool} (hkeep : ∀ c, c.isAlphanum = true → keep c = true)
    (text : List Char) : letters (text.filter keep) = letters text := by
  have hboth : ∀ c, (c.isAlphanum && keep c) = c.isAlphanum := by
    intro c
    cases hc : c.isAlphanum with
    | false => rfl
    | true => rw [hkeep c hc]; rfl
  rw [letters, List.filter_filter]
  simp only [hboth]
  rfl

/-- A letter of ASCII stays one in lower case. -/
theorem isAlphanum_toLower (c : Char) : c.toLower.isAlphanum = c.isAlphanum := by
  by_cases hupper : c.isUpper
  · rw [Char.isAlphanum, Char.isAlpha_toLower_eq_isAlpha, Char.isAlphanum, Char.isAlpha, hupper,
      Bool.true_or, Bool.true_or, Bool.true_or]
  · rw [Char.toLower_eq_of_not_isUpper hupper]

/-- Neither does the case of a character. -/
theorem letters_cons_congr {c d : Char} (hlower : c.toLower = d.toLower) (text : List Char) :
    letters (c :: text) = letters (d :: text) := by
  have hsame : c.isAlphanum = d.isAlphanum := by
    rw [← isAlphanum_toLower, hlower, isAlphanum_toLower]
  cases hd : d.isAlphanum with
  | false => simp [letters, hsame, hd]
  | true => simp [letters, hsame, hd, hlower]

theorem letters_capitalized (word : List Char) : letters (capitalized word) = letters word := by
  cases word with
  | nil => rfl
  | cons c rest => exact letters_cons_congr (Char.toLower_toUpper_eq_toLower c) rest

theorem letters_uncapitalized (word : List Char) : letters (uncapitalized word) = letters word := by
  cases word with
  | nil => rfl
  | cons c rest => exact letters_cons_congr (Char.toLower_toLower_eq_toLower c) rest

theorem letters_lower (word : List Char) : letters (word.map Char.toLower) = letters word := by
  induction word with
  | nil => rfl
  | cons c rest ih =>
    have hrest : ∀ d, letters (d :: rest.map Char.toLower) = letters (d :: rest) := by
      intro d
      rw [← List.singleton_append, letters_append, ih, ← letters_append]
      rfl
    rw [List.map_cons, hrest]
    exact letters_cons_congr (Char.toLower_toLower_eq_toLower c) rest

/-! ## Styles -/

/-- No letter is lost in Pascal case. -/
theorem letters_pascalCase (text : List Char) : letters (pascalCase text) = letters text := by
  calc letters (pascalCase text)
      = (runs isAlphanumeric text).flatMap (letters ∘ capitalized) := by
        rw [pascalCase, List.flatMap_def, letters_flatten, List.flatMap_map]
        rfl
    _ = (runs isAlphanumeric text).flatMap letters := by
        apply List.flatMap_congr
        intro run _
        exact letters_capitalized run
    _ = letters text := by
        rw [← letters_flatten, flatten_runs]
        exact letters_filter (fun c hc => isAlphanumeric_of_isAlphanum hc) text

/-- The underscores between words are no letters. -/
theorem letters_intercalate (words : List (List Char)) :
    letters (['_'].intercalate words) = words.flatMap letters := by
  have hseparator : letters ['_'] = [] := by decide
  induction words with
  | nil => rfl
  | cons word words ih =>
    cases words with
    | nil => simp
    | cons next words =>
      rw [List.intercalate_cons_cons, letters_append, letters_append, hseparator, ih,
        List.append_nil, ← List.flatMap_cons]

/-- No letter is lost in snake case. -/
theorem letters_snakeCase (text : List Char) : letters (snakeCase text) = letters text := by
  -- the words together have all letters and digits
  have hwords : ((runs Char.isAlphanum text).flatMap caseWords).flatten =
      text.filter Char.isAlphanum := by
    have hrun : ∀ run, (caseWords run).flatten = run := flatten_caseWordsFrom .none
    rw [← flatten_runs, List.flatMap_def, List.flatten_flatten, List.map_map]
    simp only [Function.comp_def, hrun, List.map_id']
  calc letters (snakeCase text)
      = ((runs Char.isAlphanum text).flatMap caseWords).flatMap letters := by
        rw [snakeCase, letters_intercalate, List.flatMap_map]
        apply List.flatMap_congr
        intro word _
        exact letters_lower word
    _ = letters text := by
        rw [← letters_flatten, hwords]
        exact letters_filter (fun c hc => hc) text

namespace Style

/-- An identifier has the letters and digits of its name, fragment by fragment. -/
theorem letters_rename (style : Style) (fragments : List String) :
    letters (style.rename fragments).toList =
      fragments.flatMap fun text => letters text.toList := by
  have hjoined : letters (joined fragments) =
      fragments.flatMap fun text => letters text.toList := by
    rw [joined, letters_intercalate, List.flatMap_map]
  rw [rename, String.toList_ofList, ← hjoined]
  cases style with
  | pascal => exact letters_pascalCase _
  | camel => exact (letters_uncapitalized _).trans (letters_pascalCase _)
  | snake => exact letters_snakeCase _

end Style
end XrManifest.Naming
