import XrManifest.Header.Identifiers
import XrManifest.Proofs.Naming.NormalForm

/-!
# Names with the same words

No style sees more of a name than its words, the maximal runs of letters and digits: how the
name was cut into fragments, and which other characters stand around its words, is lost. So the
two ways in which a header names the state of an action lead to the same identifier. The main
statement is `rename_eq_of_maximalRuns`.
-/

namespace XrManifest.Naming

open XrManifest.Text

/-- What a style does to a text depends on the words of the text. -/
theorem Style.convert_eq_of_runs (style : Style) {text other : List Char}
    (hruns : runs isAlphanumeric text = runs isAlphanumeric other) :
    style.convert text = style.convert other := by
  have hpascal : pascalCase text = pascalCase other := by rw [pascalCase, hruns, pascalCase]
  cases style with
  | pascal => exact hpascal
  | camel => exact congrArg uncapitalized hpascal
  | snake =>
    -- the words of snake case stand inside those of the other styles
    have hinner : ∀ text, (runs isAlphanumeric text).flatMap (runs Char.isAlphanum) =
        runs Char.isAlphanum text := flatMap_runs fun c => isAlphanumeric_of_isAlphanum
    have hwords : runs Char.isAlphanum text = runs Char.isAlphanum other := by
      rw [← hinner text, ← hinner other, hruns]
    show snakeCase text = snakeCase other
    rw [snakeCase, snakeCase, hwords]

/-- The state of an action as a whole is named like the pointer to its state. -/
theorem stateField_whole (style : Style) (action : String) :
    Header.stateField style action .whole = Header.statePointer style action := by
  -- the label of the whole is empty, and the mark in front of it makes no run
  have hfragment : runs isAlphanumeric (Header.subactionFragment action .whole).toList =
      runs isAlphanumeric action.toList := by
    have htext : (Header.subactionFragment action .whole).toList = action.toList ++ ['_'] := by
      simp [Header.subactionFragment, Subaction.label]
    rw [htext, runs_append_cons (by decide) action.toList []]
    exact List.append_nil _
  have hruns : runs isAlphanumeric
        (joined [Header.subactionFragment action .whole, "ActionState"]) =
      runs isAlphanumeric (joined [action, "ActionState"]) := by
    rw [runs_joined (by decide), runs_joined (by decide)]
    simp only [List.flatMap_cons, hfragment]
  rw [Header.stateField, Header.statePointer, Style.rename, style.convert_eq_of_runs hruns,
    Style.rename]

/-- Names depend only on the words: two names with the same maximal runs of letters and digits
become the same identifier in every style, and so do the two names of the state of an action.
In pascal and camel case nothing is left of a name but letters and digits; in snake case, words
of lower-case letters and digits with one underscore between any two. -/
theorem rename_eq_of_maximalRuns :
    (∀ (style : Style) (fragments others : List String) (words : List (List Char)),
      MaximalRuns isAlphanumeric (joined fragments) words →
      MaximalRuns isAlphanumeric (joined others) words →
      style.rename fragments = style.rename others) ∧
    (∀ (style : Style) (action : String),
      Header.stateField style action .whole = Header.statePointer style action) ∧
    (∀ (style : Style) (fragments : List String), style = .pascal ∨ style = .camel →
      ∀ c ∈ (style.rename fragments).toList, isAlphanumeric c = true) ∧
    ∀ fragments : List String,
      Style.snake.rename fragments = "" ∨
      ∃ words : List (List Char), words ≠ [] ∧ (∀ word ∈ words, IsLowerWord word) ∧
        (Style.snake.rename fragments).toList = ['_'].intercalate words := by
  refine ⟨?_, stateField_whole, ?_, ?_⟩
  · intro style fragments others words hfragments hothers
    have hruns := hfragments.runs_eq.trans hothers.runs_eq.symm
    rw [Style.rename, style.convert_eq_of_runs hruns, Style.rename]
  · rintro style fragments hstyle c hc
    rw [Style.rename, String.toList_ofList] at hc
    rcases hstyle with rfl | rfl
    · exact mem_pascalCase hc
    · exact mem_camelCase hc
  · intro fragments
    have hsnake : (Style.snake.rename fragments).toList =
        ['_'].intercalate (snakeWords (joined fragments)) := by
      rw [Style.rename, String.toList_ofList]
      rfl
    by_cases hwords : snakeWords (joined fragments) = []
    · left
      rw [hwords] at hsnake
      exact String.toList_eq_nil_iff.1 hsnake
    · exact .inr ⟨_, hwords, fun word h => isLowerWord_of_mem_snakeWords h, hsnake⟩

/-- A name in one fragment and in three, with other separators around its two words. -/
theorem rename_grab_value :
    MaximalRuns isAlphanumeric (joined ["-grab//Value"]) ["grab".toList, "Value".toList] ∧
    Style.camel.rename ["-grab//Value"] = Style.camel.rename ["grab", "", "Value "] ∧
    ∀ c ∈ (Style.camel.rename ["-grab//Value"]).toList, isAlphanumeric c = true := by
  have hfirst : MaximalRuns isAlphanumeric (joined ["-grab//Value"])
      ["grab".toList, "Value".toList] := maximalRuns_iff.2 (by decide)
  have hsecond : MaximalRuns isAlphanumeric (joined ["grab", "", "Value "])
      ["grab".toList, "Value".toList] := maximalRuns_iff.2 (by decide)
  obtain ⟨hsame, -, hall, -⟩ := rename_eq_of_maximalRuns
  exact ⟨hfirst, hsame .camel _ _ _ hfirst hsecond, hall .camel _ (.inr rfl)⟩

end XrManifest.Naming
