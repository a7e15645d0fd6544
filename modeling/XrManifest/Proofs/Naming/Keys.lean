import XrManifest.Proofs.Naming.Characters

/-!
# Names that become the same identifier

A style tells two names apart by what it keeps of their texts, the keys. The key of a list of
fragments is made of those of the fragments, one behind the other, so that a fragment which
two names share at an end can be dropped from both. The main statement is
`Style.rename_eq_rename`.
-/

namespace XrManifest.Naming

open XrManifest.Text

/-! ## Words of a joined text -/

/-- A separator that is not kept parts the runs of a text. -/
theorem runs_append_cons {keep : Char → Bool} {separator : Char}
    (hseparator : keep separator = false) (before after : List Char) :
    runs keep (before ++ separator :: after) = runs keep before ++ runs keep after := by
  have hsplit : (!keep separator) = true := by rw [hseparator]; rfl
  rw [runs, List.splitOnP_append_cons before after hsplit, List.filter_append]
  rfl

/-- The runs of a name are those of its fragments. -/
theorem runs_joined {keep : Char → Bool} (hkeep : keep '_' = false) (fragments : List String) :
    runs keep (joined fragments) = fragments.flatMap fun text => runs keep text.toList := by
  unfold joined
  induction fragments with
  | nil => rfl
  | cons first rest ih =>
    cases rest with
    | nil => simp
    | cons second rest =>
      rw [List.map_cons, List.map_cons, List.intercalate_cons_cons, List.append_assoc,
        List.singleton_append, runs_append_cons hkeep]
      exact congrArg (runs keep first.toList ++ ·) ih

/-- No run is empty. -/
theorem ne_nil_of_mem_runs {keep : Char → Bool} {text run : List Char}
    (h : run ∈ runs keep text) : run ≠ [] := by
  simpa using (List.mem_filter.1 h).2

/-- A run that is not empty has no empty word; where a word is open already, the first one
may be. -/
theorem ne_nil_of_mem_caseWordsFrom (seen : Cased) {run : List Char} (hrun : run ≠ []) :
    ∃ word words, caseWordsFrom seen run = word :: words ∧
      (seen ≠ .upper → word ≠ []) ∧ ∀ later ∈ words, later ≠ [] := by
  fun_induction caseWordsFrom seen run with
  | case1 => exact absurd rfl hrun
  | case2 => exact ⟨_, _, rfl, by simp, by simp⟩
  -- a small letter in front of a capital ends its word
  | case3 seen c next rest _ ih =>
    obtain ⟨word, words, heq, hword, hwords⟩ := ih (by simp)
    rw [heq]
    refine ⟨_, _, rfl, by simp, ?_⟩
    intro later hlater
    rcases List.mem_cons.1 hlater with rfl | hlater
    · exact hword (by simp)
    · exact hwords later hlater
  | case4 seen c next rest _ hends ih =>
    obtain ⟨word, words, heq, -, hwords⟩ := ih (by simp)
    rw [heq]
    refine ⟨_, _, rfl, fun hseen => absurd hends.1 hseen, ?_⟩
    intro later hlater
    rcases List.mem_cons.1 hlater with rfl | hlater
    · simp
    · exact hwords later hlater
  | case5 seen c next rest _ _ ih =>
    obtain ⟨word, words, heq, -, hwords⟩ := ih (by simp)
    rw [heq]
    exact ⟨_, _, rfl, by simp, hwords⟩

/-- The words of a text in snake case. -/
def snakeWords (text : List Char) : List (List Char) :=
  ((runs Char.isAlphanum text).flatMap caseWords).map fun word => word.map Char.toLower

theorem ne_nil_of_mem_snakeWords {text word : List Char} (h : word ∈ snakeWords text) :
    word ≠ [] := by
  obtain ⟨cased, hcased, rfl⟩ := List.mem_map.1 h
  obtain ⟨run, hrun, hmem⟩ := List.mem_flatMap.1 hcased
  obtain ⟨first, rest, heq, hfirst, hrest⟩ :=
    ne_nil_of_mem_caseWordsFrom .none (ne_nil_of_mem_runs hrun)
  rw [caseWords, heq] at hmem
  rw [Ne, List.map_eq_nil_iff]
  rcases List.mem_cons.1 hmem with rfl | hmem
  · exact hfirst (by simp)
  · exact hrest cased hmem

/-! ## Keys -/

/-- Words with an underscore behind each. -/
def underscored (words : List (List Char)) : List Char := words.flatMap fun word => word ++ ['_']

/-- What a style keeps of a text. -/
def Style.key : Style → List Char → List Char
  | .pascal => pascalCase
  | .camel => pascalCase
  | .snake => fun text => underscored (snakeWords text)

@[simp] theorem Style.key_nil (style : Style) : style.key [] = [] := by
  cases style <;> rfl

/-- The key of a name is made of those of its fragments. -/
theorem Style.key_joined (style : Style) (fragments : List String) :
    style.key (joined fragments) = fragments.flatMap fun text => style.key text.toList := by
  have hpascal : pascalCase (joined fragments) =
      fragments.flatMap fun text => pascalCase text.toList := by
    unfold pascalCase
    rw [runs_joined rfl, List.flatMap_assoc]
  -- the runs of a join are those of its parts, as the mark between is no letter
  cases style with
  | pascal => exact hpascal
  | camel => exact hpascal
  | snake =>
    have hwords : snakeWords (joined fragments) =
        fragments.flatMap fun text => snakeWords text.toList := by
      unfold snakeWords
      rw [runs_joined rfl, List.flatMap_assoc, List.map_flatMap]
    show underscored (snakeWords (joined fragments)) = _
    rw [hwords, underscored, List.flatMap_assoc]
    rfl

/-! ## Identifiers -/

/-- The case of the first letter is lost when it becomes a capital. -/
theorem capitalized_uncapitalized (word : List Char) :
    capitalized (uncapitalized word) = capitalized word := by
  cases word with
  | nil => rfl
  | cons c rest => rw [uncapitalized, capitalized, capitalized, Char.toUpper_toLower_eq_toUpper]

/-- A name in pascal case has its first character in upper case already. -/
theorem capitalized_pascalCase (text : List Char) :
    capitalized (pascalCase text) = pascalCase text := by
  unfold pascalCase
  cases hruns : runs isAlphanumeric text with
  | nil => rfl
  | cons run rest =>
    cases run with
    | nil =>
      have hempty : ([] : List Char) ∈ runs isAlphanumeric text := by simp [hruns]
      exact absurd rfl (ne_nil_of_mem_runs hempty)
    | cons c run => simp [capitalized]

/-- Camel case changes no more than can be undone. -/
theorem camelCase_eq_camelCase {text other : List Char} :
    camelCase text = camelCase other ↔ pascalCase text = pascalCase other := by
  constructor
  · intro h
    have hsame := congrArg capitalized h
    unfold camelCase at hsame
    rwa [capitalized_uncapitalized, capitalized_uncapitalized, capitalized_pascalCase,
      capitalized_pascalCase] at hsame
  · intro h
    rw [camelCase, camelCase, h]

/-- Snake case leaves out the last underscore. -/
theorem intercalate_eq_dropLast (words : List (List Char)) :
    ['_'].intercalate words = (underscored words).dropLast := by
  unfold underscored
  induction words with
  | nil => rfl
  | cons first rest ih =>
    cases rest with
    | nil => simp
    | cons second rest =>
      have hrest : (second :: rest).flatMap (fun word => word ++ ['_']) ≠ [] := by simp
      rw [List.intercalate_cons_cons, List.flatMap_cons, List.dropLast_append_of_ne_nil hrest, ih]

/-- Words with underscores behind them end in one. -/
theorem underscored_eq_nil_or (words : List (List Char)) :
    underscored words = [] ∨ ∃ before, underscored words = before ++ ['_'] := by
  rcases List.eq_nil_or_concat words with rfl | ⟨before, last, rfl⟩
  · exact .inl rfl
  · refine .inr ⟨underscored before ++ last, ?_⟩
    simp [underscored]

/-- No text has the key of one empty word. -/
theorem dropLast_snakeKey_ne_nil {text : List Char} (h : underscored (snakeWords text) ≠ []) :
    (underscored (snakeWords text)).dropLast ≠ [] := by
  have hwords : ∀ word ∈ snakeWords text, word ≠ [] := fun _ => ne_nil_of_mem_snakeWords
  cases hcase : snakeWords text with
  | nil =>
    rw [hcase] at h
    exact absurd rfl h
  | cons word words =>
    have hword : word ≠ [] := hwords word (by simp [hcase])
    rw [← intercalate_eq_dropLast]
    obtain ⟨c, rest, rfl⟩ := List.exists_cons_of_ne_nil hword
    cases words <;> simp

/-- Words with underscores between them are told apart as with underscores behind them. -/
theorem snakeCase_eq_snakeCase {text other : List Char} :
    snakeCase text = snakeCase other ↔
      underscored (snakeWords text) = underscored (snakeWords other) := by
  -- the words with a mark behind each tell where they end
  have hsnake : ∀ text, snakeCase text = (underscored (snakeWords text)).dropLast :=
    fun text => intercalate_eq_dropLast _
  rw [hsnake, hsnake]
  constructor
  · intro h
    rcases underscored_eq_nil_or (snakeWords text) with hnil | ⟨before, hbefore⟩
    · rcases underscored_eq_nil_or (snakeWords other) with hother | ⟨behind, hother⟩
      · rw [hnil, hother]
      · rw [hnil, List.dropLast_nil] at h
        exact absurd h.symm (dropLast_snakeKey_ne_nil (by simp [hother]))
    · rcases underscored_eq_nil_or (snakeWords other) with hother | ⟨behind, hother⟩
      · rw [hother, List.dropLast_nil] at h
        exact absurd h (dropLast_snakeKey_ne_nil (by simp [hbefore]))
      · rw [hbefore, hother, List.dropLast_concat, List.dropLast_concat] at h
        rw [hbefore, hother, h]
  · intro h
    rw [h]

/-- Two names become the same identifier exactly when their keys are the same. -/
theorem Style.rename_eq_rename {style : Style} {names others : List String} :
    style.rename names = style.rename others ↔
      (names.flatMap fun text => style.key text.toList) =
        others.flatMap fun text => style.key text.toList := by
  rw [← key_joined, ← key_joined, rename, rename, String.ofList_inj]
  cases style with
  | pascal => rfl
  | camel => exact camelCase_eq_camelCase
  | snake => exact snakeCase_eq_snakeCase

end XrManifest.Naming
