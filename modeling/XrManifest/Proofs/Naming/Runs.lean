import XrManifest.Proofs.Naming.Keys

/-!
# Maximal runs

What the maximal runs of a text are, said without cutting the text at anything: a relation
that reads the text from the front and takes a run only where no kept character follows it.
Every text has exactly one list of maximal runs, the one that `runs` finds. Where one kind of
character is part of another, its runs are found inside the runs of the other.
-/

namespace XrManifest.Naming

variable {keep : Char → Bool}

/-- The maximal runs of characters in a text that satisfy `keep`, in order: none of them is
empty, and a character that is not kept stands between any two. -/
inductive MaximalRuns (keep : Char → Bool) : List Char → List (List Char) → Prop where
  | nil : MaximalRuns keep [] []
  | skip {c : Char} {rest : List Char} {words : List (List Char)} :
      keep c = false → MaximalRuns keep rest words → MaximalRuns keep (c :: rest) words
  | run {word rest : List Char} {words : List (List Char)} :
      word ≠ [] → (∀ c ∈ word, keep c = true) → (∀ c ∈ rest.head?, keep c = false) →
      MaximalRuns keep rest words → MaximalRuns keep (word ++ rest) (word :: words)

/-! ## Runs from the front -/

theorem runs_cons_of_not {c : Char} (hc : keep c = false) (rest : List Char) :
    runs keep (c :: rest) = runs keep rest := runs_append_cons hc [] rest

/-- A text of kept characters is one run. -/
theorem runs_of_all {word : List Char} (hne : word ≠ []) (hall : ∀ c ∈ word, keep c = true) :
    runs keep word = [word] := by
  have hsplit : word.splitOnP (fun c => !keep c) = [word] := by
    apply List.splitOnP_eq_singleton
    intro c hc
    rw [hall c hc]
    decide
  obtain ⟨c, rest, rfl⟩ := List.exists_cons_of_ne_nil hne
  rw [runs, hsplit]
  rfl

/-- A text is cut in front of a character that is not kept. -/
theorem runs_append (before : List Char) {after : List Char}
    (hafter : ∀ c ∈ after.head?, keep c = false) :
    runs keep (before ++ after) = runs keep before ++ runs keep after := by
  cases after with
  | nil => rw [List.append_nil]; exact (List.append_nil _).symm
  | cons c rest =>
    have hc : keep c = false := hafter c rfl
    rw [runs_append_cons hc, runs_cons_of_not hc]

/-! ## The one list of maximal runs -/

/-- A list of maximal runs is the one that is found. -/
theorem MaximalRuns.runs_eq {text : List Char} {words : List (List Char)}
    (h : MaximalRuns keep text words) : runs keep text = words := by
  induction h with
  | nil => rfl
  | skip hc _ ih => rw [runs_cons_of_not hc, ih]
  | run hne hall hrest _ ih => rw [runs_append _ hrest, runs_of_all hne hall, ih]; rfl

/-- The runs that are found are maximal. -/
theorem maximalRuns_runs (keep : Char → Bool) (text : List Char) :
    MaximalRuns keep text (runs keep text) := by
  -- a run is taken at once, so the induction is on the length of the text
  induction hlength : text.length using Nat.strongRecOn generalizing text with
  | ind length ih =>
    subst hlength
    cases text with
    | nil => exact .nil
    | cons c rest =>
      cases hc : keep c with
      | false =>
        rw [runs_cons_of_not hc]
        exact .skip hc (ih _ (by simp) rest rfl)
      | true =>
        have hcut := List.takeWhile_append_dropWhile (p := keep) (l := c :: rest)
        have hword : (c :: rest).takeWhile keep = c :: rest.takeWhile keep := by
          rw [List.takeWhile_cons_of_pos hc]
        have hshort : ((c :: rest).dropWhile keep).length < (c :: rest).length := by
          rw [List.dropWhile_cons_of_pos hc, List.length_cons]
          exact Nat.lt_succ_of_le (List.dropWhile_suffix keep).length_le
        have hall : ∀ d ∈ (c :: rest).takeWhile keep, keep d = true :=
          fun d hd => List.mem_takeWhile_imp hd
        have hhead : ∀ d ∈ ((c :: rest).dropWhile keep).head?, keep d = false := by
          intro d hd
          have hnot := List.head?_dropWhile_not keep (c :: rest)
          rw [Option.mem_def.1 hd] at hnot
          exact hnot
        have hne : (c :: rest).takeWhile keep ≠ [] := by rw [hword]; exact List.cons_ne_nil _ _
        have hruns : runs keep (c :: rest) =
            (c :: rest).takeWhile keep :: runs keep ((c :: rest).dropWhile keep) := by
          conv_lhs => rw [← hcut]
          rw [runs_append _ hhead, runs_of_all hne hall, List.singleton_append]
        have hrun := MaximalRuns.run hne hall hhead (ih _ hshort _ rfl)
        rwa [hcut, ← hruns] at hrun

/-- Every text has one list of maximal runs. -/
theorem maximalRuns_iff {text : List Char} {words : List (List Char)} :
    MaximalRuns keep text words ↔ runs keep text = words := by
  constructor
  · exact MaximalRuns.runs_eq
  · rintro rfl
    exact maximalRuns_runs keep text

/-! ## Runs inside runs -/

/-- The runs of some of the kept characters stand inside the runs of all of them. -/
theorem flatMap_runs {inner : Char → Bool} (hinner : ∀ c, inner c = true → keep c = true)
    (text : List Char) : (runs keep text).flatMap (runs inner) = runs inner text := by
  have hnot : ∀ c, keep c = false → inner c = false := by
    intro c hc
    cases hin : inner c with
    | false => rfl
    | true => rw [hinner c hin] at hc; cases hc
  have hwords : ∀ {text words}, MaximalRuns keep text words →
      words.flatMap (runs inner) = runs inner text := by
    intro text words h
    induction h with
    | nil => rfl
    | skip hc _ ih => rw [ih, runs_cons_of_not (hnot _ hc)]
    | run _ _ hrest _ ih =>
      rw [List.flatMap_cons, ih, runs_append _ fun c hc => hnot c (hrest c hc)]
  exact hwords (maximalRuns_runs keep text)

end XrManifest.Naming
