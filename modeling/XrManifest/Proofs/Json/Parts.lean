import XrManifest.Proofs.Json.Stripping
import XrManifest.Proofs.Text.Bytes

/-!
# Parts of relaxed text

Every text is a sequence of parts: strings, comments, and what stands between them. The
parts are said without reading the text character by character (`Divided`), and reading
it finds them (`marked_of_divided`).
-/

namespace XrManifest.Json.Relaxed

open XrManifest.Text

/-- The text ends inside of a string that has `inside` behind its opening quote. -/
def EndsInString (inside : List Char) : Prop :=
  Enclosed inside ∨ ∃ body, Enclosed body ∧ inside = body ++ ['\\']

/-- The parts of a text in order, each with its role: strings, comments and the block
comment without an end as a whole, and all other characters one by one. -/
inductive Divided : List Char → List (List Char × Role) → Prop where
  | nil : Divided [] []
  | code {c : Char} {rest : List Char} {parts : List (List Char × Role)} (hquote : c ≠ '"')
      (hslash : c = '/' → ∀ d ∈ rest.head?, d ≠ '/' ∧ d ≠ '*') (hrest : Divided rest parts) :
      Divided (c :: rest) (([c], .code) :: parts)
  | string {inside rest : List Char} {parts : List (List Char × Role)}
      (hinside : Enclosed inside) (hrest : Divided rest parts) :
      Divided ('"' :: (inside ++ '"' :: rest)) (('"' :: (inside ++ ['"']), .string) :: parts)
  | openString {inside : List Char} (hinside : EndsInString inside) :
      Divided ('"' :: inside) [('"' :: inside, .string)]
  | lineComment {body rest : List Char} {parts : List (List Char × Role)} (hbody : '\n' ∉ body)
      (hends : ∀ c ∈ rest.head?, c = '\n') (hrest : Divided rest parts) :
      Divided ('/' :: '/' :: (body ++ rest)) (('/' :: '/' :: body, .comment) :: parts)
  | blockComment {body rest : List Char} {parts : List (List Char × Role)}
      (hbody : ¬ ['*', '/'] <:+: body) (hrest : Divided rest parts) :
      Divided ('/' :: '*' :: (body ++ '*' :: '/' :: rest))
        (('/' :: '*' :: (body ++ ['*', '/']), .comment) :: parts)
  | openComment {body : List Char} (hbody : ¬ ['*', '/'] <:+: body) :
      Divided ('/' :: '*' :: body) [('/' :: '*' :: body, .unclosed)]

/-! ## Every text has parts -/

/-- Behind the opening quote of a string its closing quote comes, or the text ends. -/
theorem exists_enclosed (text : List Char) :
    (∃ inside rest, Enclosed inside ∧ text = inside ++ '"' :: rest) ∨ EndsInString text := by
  -- an escape takes two characters at once, so the induction is on the length of the text
  induction hn : text.length using Nat.strongRecOn generalizing text with
  | ind n ih =>
    cases text with
    | nil => exact .inr (.inl .nil)
    | cons c text =>
      by_cases hquote : c = '"'
      · exact .inl ⟨[], text, .nil, by rw [hquote]; rfl⟩
      by_cases hslash : c = '\\'
      · cases text with
        | nil => exact .inr (.inr ⟨[], .nil, by rw [hslash]; rfl⟩)
        | cons d text =>
          have hlength : text.length < n := by
            rw [← hn, List.length_cons, List.length_cons]
            omega
          rcases ih _ hlength text rfl with ⟨inside, rest, hinside, rfl⟩ | hend | ⟨body, hbody, rfl⟩
          · exact .inl ⟨'\\' :: d :: inside, rest, .escaped hinside, by rw [hslash]; rfl⟩
          · exact .inr (.inl (hslash ▸ .escaped hend))
          · exact .inr (.inr ⟨'\\' :: d :: body, .escaped hbody, by rw [hslash]; rfl⟩)
      · have hlength : text.length < n := by
          rw [← hn, List.length_cons]
          omega
        rcases ih _ hlength text rfl with ⟨inside, rest, hinside, rfl⟩ | hend | ⟨body, hbody, rfl⟩
        · exact .inl ⟨c :: inside, rest, .plain hquote hslash hinside, rfl⟩
        · exact .inr (.inl (.plain hquote hslash hend))
        · exact .inr (.inr ⟨c :: body, .plain hquote hslash hbody, rfl⟩)

/-- Every text can be divided into its parts. -/
theorem exists_divided (text : List Char) : ∃ parts, Divided text parts := by
  -- a part is taken at once, so the induction is on the length of the text
  induction hn : text.length using Nat.strongRecOn generalizing text with
  | ind n ih =>
    have hshorter : ∀ rest : List Char, rest.length < text.length → ∃ parts, Divided rest parts :=
      fun rest h => ih _ (hn ▸ h) rest rfl
    cases text with
    | nil => exact ⟨[], .nil⟩
    | cons c text =>
      by_cases hquote : c = '"'
      · subst hquote
        rcases exists_enclosed text with ⟨inside, rest, hinside, rfl⟩ | hend
        · obtain ⟨parts, hrest⟩ := hshorter rest (by simp; omega)
          exact ⟨_, .string hinside hrest⟩
        · exact ⟨_, .openString hend⟩
      by_cases hcomment : c = '/' ∧ ∃ d ∈ text.head?, d = '/' ∨ d = '*'
      · obtain ⟨rfl, d, hd, hkind⟩ := hcomment
        obtain ⟨text, rfl⟩ : ∃ rest, text = d :: rest := List.head?_eq_some_iff.1 hd
        rcases hkind with rfl | rfl
        · -- the comment goes up to the line break
          rw [← List.takeWhile_append_dropWhile (p := (· ≠ '\n')) (l := text)]
          have hle := List.length_dropWhile_le (· ≠ '\n') text
          obtain ⟨parts, hrest⟩ := hshorter (text.dropWhile (· ≠ '\n')) (by
            rw [List.length_cons, List.length_cons]
            omega)
          refine ⟨_, .lineComment (fun hmem => ?_) (fun e he => ?_) hrest⟩
          · have htaken := List.mem_takeWhile_imp hmem
            simp at htaken
          · have hstop := List.head?_dropWhile_not (· ≠ '\n') text
            rw [he] at hstop
            simpa using hstop
        · by_cases hend : endsBlock text = true
          · obtain ⟨body, rest, rfl, hbody⟩ := exists_of_endsBlock hend
            obtain ⟨parts, hrest⟩ := hshorter rest (by simp; omega)
            exact ⟨_, .blockComment hbody hrest⟩
          · refine ⟨_, .openComment fun hinfix => hend ?_⟩
            obtain ⟨before, after, rfl⟩ := hinfix
            rw [List.append_assoc]
            exact endsBlock_append before after
      · obtain ⟨parts, hrest⟩ := hshorter text (by simp)
        refine ⟨_, .code hquote (fun hslash d hd => ?_) hrest⟩
        constructor
        · exact fun hline => hcomment ⟨hslash, d, hd, .inl hline⟩
        · exact fun hblock => hcomment ⟨hslash, d, hd, .inr hblock⟩

/-! ## Reading finds the parts -/

/-- Nothing ends a comment without an end. -/
theorem marked_unclosed (text : List Char) :
    marked .unclosed text = text.map fun c => (c, .unclosed) := by
  induction text with
  | nil => rfl
  | cons c text ih => rw [marked, List.map_cons, ← ih]; rfl

/-- The characters of a text have the roles of the parts that they are in. -/
theorem marked_of_divided {text : List Char} {parts : List (List Char × Role)}
    (h : Divided text parts) :
    marked .code text = parts.flatMap fun part => part.1.map fun c => (c, part.2) := by
  induction h with
  | nil => rfl
  | @code c rest parts hquote hslash _ ih =>
    by_cases hc : c = '/'
    · subst hc
      rw [marked, read_slash (hslash rfl), List.flatMap_cons, ← ih]
      rfl
    · rw [marked_code hquote hc, List.flatMap_cons, ← ih]
      rfl
  | string hinside _ ih =>
    have hmarks := marked_quoted hinside
    simp [marked, Scope.read, hmarks, ih]
  | openString hinside =>
    rcases hinside with hinside | ⟨body, hbody, rfl⟩
    · have hmarks := marked_enclosed hinside []
      simp [marked, Scope.read] at hmarks ⊢
      exact hmarks
    · have hmarks := marked_enclosed hbody ['\\']
      simp [marked, Scope.read, hmarks]
  | @lineComment body rest parts hbody hends _ ih =>
    have hmarks := marked_lineComment hbody rest
    -- the comment is over behind its body
    have hover : marked .lineComment rest = marked .code rest := by
      cases rest with
      | nil => rfl
      | cons c rest =>
        rw [hends c rfl]
        rfl
    simp [marked, Scope.read, hmarks, hover, ih]
  | blockComment hbody _ ih =>
    have hmarks := marked_blockComment hbody
    simp [marked, Scope.read, endsBlock_append, hmarks, ih]
  | @openComment body hbody =>
    have hend : endsBlock body = false := by
      rw [Bool.eq_false_iff]
      intro hend
      obtain ⟨before, after, rfl, -⟩ := exists_of_endsBlock hend
      exact hbody ⟨before, after, by simp⟩
    simp [marked, Scope.read, hend, marked_unclosed]

/-- So do those of the first part, in front of the others. -/
theorem marked_part {text rest : List Char} {role : Role} {parts : List (List Char × Role)}
    (h : Divided (text ++ rest) ((text, role) :: parts)) (hrest : Divided rest parts) :
    marked .code (text ++ rest) = text.map (fun c => (c, role)) ++ marked .code rest := by
  rw [marked_of_divided h, marked_of_divided hrest, List.flatMap_cons]

end XrManifest.Json.Relaxed
