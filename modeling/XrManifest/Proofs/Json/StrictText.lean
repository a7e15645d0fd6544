import Mathlib
import XrManifest.Manifest.Reading
import XrManifest.Proofs.Json.Overwriting
import XrManifest.Proofs.Json.RelaxedSyntax

/-!
# Text that is strict already

Making a text strict changes nothing in a text that is strict JSON, and nothing more in a
text that was made strict before, whatever the text is. The main statement is
`toStrict_stable`.
-/

namespace XrManifest.Json.Relaxed

/-! ## Parts of a strict text -/

/-- A character outside strings and comments stays or is a trailing comma. -/
theorem stripped_code {c : Char} {rest : List Char} (hquote : c ≠ '"')
    (hslash : c = '/' → ∀ d ∈ rest.head?, d ≠ '/' ∧ d ≠ '*') (afterValue : Bool) :
    stripped afterValue (c :: rest) =
      if c = ',' then
        (if afterValue && closerFollows (marked .code rest) then ' ' else ',') ::
          stripped false rest
      else c :: stripped (if isSpace c then afterValue else !isOpener c) rest := by
  -- a slash alone starts no comment, so the character is code
  have hmarks : marked .code (c :: rest) = (c, .code) :: marked .code rest := by
    by_cases hc : c = '/'
    · rw [hc, marked, read_slash (hslash hc)]
    · exact marked_code hquote hc
  rw [stripped, hmarks, blanked]
  by_cases hcomma : c = ','
  · rw [if_pos hcomma, if_pos hcomma, hcomma]
    rfl
  · rw [if_neg hcomma, if_neg hcomma]
    by_cases hspace : isSpace c = true
    · rw [if_pos hspace, if_pos hspace]
      rfl
    · rw [if_neg hspace, if_neg hspace]
      rfl

/-- A slash that starts no comment starts none in front of strict text. -/
theorem not_comment_stripped {c : Char} {rest : List Char}
    (hslash : c = '/' → ∀ d ∈ rest.head?, d ≠ '/' ∧ d ≠ '*') (afterValue : Bool) :
    c = '/' → ∀ d ∈ (stripped afterValue rest).head?, d ≠ '/' ∧ d ≠ '*' := by
  intro hc d hd
  cases rest with
  | nil => exact absurd hd (by simp [stripped, marked, blanked])
  | cons e rest =>
    rcases head?_stripped afterValue e rest d hd with rfl | rfl
    · exact hslash hc d rfl
    · decide

/-- A string stays. -/
theorem stripped_string {inside : List Char} (h : Enclosed inside) (afterValue : Bool)
    (rest : List Char) :
    stripped afterValue ('"' :: (inside ++ '"' :: rest)) =
      '"' :: (inside ++ '"' :: stripped true rest) := by
  have hcomma : Token.quoted inside h ≠ .mark .comma := by simp
  have htoken := stripped_token hcomma afterValue rest
  simpa [Token.text, Token.endsValue] using htoken

/-- So does a string that the text ends in. -/
theorem stripped_openString {inside : List Char} (h : EndsInString inside) (afterValue : Bool) :
    stripped afterValue ('"' :: inside) = '"' :: inside := by
  have hmarks := marked_of_divided (.openString h)
  rw [List.flatMap_singleton] at hmarks
  have hstring := blanked_string (List.cons_ne_nil '"' inside) afterValue []
  rw [List.append_nil, blanked, List.append_nil] at hstring
  rw [stripped, hmarks, hstring]

/-- So does a block comment that nothing ends. -/
theorem stripped_openComment {body : List Char} (h : ¬ ['*', '/'] <:+: body)
    (afterValue : Bool) : stripped afterValue ('/' :: '*' :: body) = '/' :: '*' :: body := by
  have hmarks := marked_of_divided (.openComment h)
  rw [List.flatMap_singleton] at hmarks
  rw [stripped, hmarks, blanked_unclosed]

/-- A comment leaves white space. -/
theorem stripped_comment {text rest : List Char} {parts : List (List Char × Role)}
    (h : Divided (text ++ rest) ((text, .comment) :: parts)) (hrest : Divided rest parts)
    (afterValue : Bool) :
    stripped afterValue (text ++ rest) = text.flatMap spaces ++ stripped afterValue rest := by
  rw [stripped, marked_part h hrest, blanked_comment]
  rfl

/-- What is left of a comment is white space. -/
theorem blank_flatMap_spaces (text : List Char) : Blank (text.flatMap spaces) := by
  intro c hc
  obtain ⟨d, -, hspace⟩ := List.mem_flatMap.1 hc
  exact blank_spaces d c hspace

/-- A comment does not hide what comes next. -/
theorem closerFollows_comment {text rest : List Char} {parts : List (List Char × Role)}
    (h : Divided (text ++ rest) ((text, .comment) :: parts)) (hrest : Divided rest parts) :
    closerFollows (marked .code (text ++ rest)) = closerFollows (marked .code rest) := by
  rw [marked_part h hrest, closerFollows_vacant (vacant_comment text)]

/-- Nor does white space. -/
theorem closerFollows_blank {blank : List Char} (h : Blank blank) (rest : List Char) :
    closerFollows (marked .code (blank ++ rest)) = closerFollows (marked .code rest) := by
  obtain ⟨marks, hmarks, hmarked⟩ := marked_gap h.gap
  rw [hmarked, closerFollows_vacant hmarks]

/-- White space is passed over on the way to a bracket. -/
theorem closerFollows_code {c : Char} {rest : List Char} (hquote : c ≠ '"')
    (hslash : c = '/' → ∀ d ∈ rest.head?, d ≠ '/' ∧ d ≠ '*') :
    closerFollows (marked .code (c :: rest)) =
      if isSpace c then closerFollows (marked .code rest) else isCloser c := by
  by_cases hc : c = '/'
  · rw [hc, marked, read_slash (hslash hc)]
    rfl
  · rw [marked_code hquote hc]
    rfl

/-! ## The second time -/

/-- Where no value is in front of a text, its first character that counts stays, so what
comes next is the same as before. -/
theorem closerFollows_stripped {text : List Char} {parts : List (List Char × Role)}
    (h : Divided text parts) :
    closerFollows (marked .code (stripped false text)) = closerFollows (marked .code text) := by
  induction h with
  | nil => rfl
  | @code c rest parts hquote hslash hrest ih =>
    rw [closerFollows_code hquote hslash, stripped_code hquote hslash]
    by_cases hcomma : c = ','
    · -- a comma in this place is not a trailing one
      rw [if_pos hcomma, hcomma]
      rfl
    -- what is stripped starts a comment no more than the text does
    · have hagain := not_comment_stripped hslash (if isSpace c then false else !isOpener c)
      rw [if_neg hcomma, closerFollows_code hquote hagain]
      by_cases hspace : isSpace c = true
      · simp only [if_pos hspace]
        exact ih
      · simp only [if_neg hspace]
  | string hinside _ _ =>
    rw [stripped_string hinside]
    rfl
  | openString hinside => rw [stripped_openString hinside]
  | lineComment hbody hends hrest ih =>
    have hdivided := Divided.lineComment hbody hends hrest
    rw [← List.cons_append, ← List.cons_append] at hdivided ⊢
    rw [stripped_comment hdivided hrest, closerFollows_blank (blank_flatMap_spaces _),
      closerFollows_comment hdivided hrest, ih]
  | @blockComment body rest parts hbody hrest ih =>
    have htext : '/' :: '*' :: (body ++ '*' :: '/' :: rest) =
        ('/' :: '*' :: (body ++ ['*', '/'])) ++ rest := by simp
    have hdivided := Divided.blockComment hbody hrest
    rw [htext] at hdivided ⊢
    rw [stripped_comment hdivided hrest, closerFollows_blank (blank_flatMap_spaces _),
      closerFollows_comment hdivided hrest, ih]
  | openComment hbody => rw [stripped_openComment hbody]

/-- What was made strict stays as it is. Behind a trailing comma, which is a space by then,
the two passes differ in whether a value is in front, but only up to the closing bracket. -/
theorem stripped_stripped {text : List Char} {parts : List (List Char × Role)}
    (h : Divided text parts) {first second : Bool}
    (hflags : first = second ∨ closerFollows (marked .code text) = true) :
    stripped second (stripped first text) = stripped first text := by
  induction h generalizing first second with
  | nil => rfl
  | @code c rest parts hquote hslash hrest ih =>
    rw [closerFollows_code hquote hslash] at hflags
    rw [stripped_code hquote hslash]
    by_cases hcomma : c = ','
    · -- no closing bracket comes before the comma, so the passes agree in front of it
      subst hcomma
      have hsame : first = second := by
        rcases hflags with hsame | hcloser
        · exact hsame
        · rw [if_neg (by decide)] at hcloser
          exact absurd hcloser (by decide)
      subst hsame
      rw [if_pos rfl]
      by_cases htrailing : (first && closerFollows (marked .code rest)) = true
      · rw [if_pos htrailing]
        have hcloser := (Bool.and_eq_true_iff.1 htrailing).2
        have hfree : ' ' = '/' → ∀ d ∈ (stripped false rest).head?, d ≠ '/' ∧ d ≠ '*' :=
          fun hc => absurd hc (by decide)
        rw [stripped_code (by decide) hfree, if_neg (by decide), ih (.inr hcloser)]
      · rw [if_neg htrailing, stripped_comma, closerFollows_stripped hrest, if_neg htrailing,
          ih (.inl rfl)]
    · rw [if_neg hcomma]
      have hagain := not_comment_stripped hslash (if isSpace c then first else !isOpener c)
      rw [stripped_code hquote hagain, if_neg hcomma]
      congr 1
      apply ih
      by_cases hspace : isSpace c = true
      · rw [if_pos hspace, if_pos hspace]
        rwa [if_pos hspace] at hflags
      · rw [if_neg hspace, if_neg hspace]
        exact .inl rfl
  | string hinside _ ih => rw [stripped_string hinside, stripped_string hinside, ih (.inl rfl)]
  | openString hinside => rw [stripped_openString hinside, stripped_openString hinside]
  | lineComment hbody hends hrest ih =>
    have hdivided := Divided.lineComment hbody hends hrest
    rw [← List.cons_append, ← List.cons_append] at hdivided hflags ⊢
    rw [closerFollows_comment hdivided hrest] at hflags
    rw [stripped_comment hdivided hrest, stripped_blank (blank_flatMap_spaces _), ih hflags]
  | @blockComment body rest parts hbody hrest ih =>
    have htext : '/' :: '*' :: (body ++ '*' :: '/' :: rest) =
        ('/' :: '*' :: (body ++ ['*', '/'])) ++ rest := by simp
    have hdivided := Divided.blockComment hbody hrest
    rw [htext] at hdivided hflags ⊢
    rw [closerFollows_comment hdivided hrest] at hflags
    rw [stripped_comment hdivided hrest, stripped_blank (blank_flatMap_spaces _), ih hflags]
  | openComment hbody => rw [stripped_openComment hbody, stripped_openComment hbody]

/-! ## Strict texts -/

/-- A text that is read as JSON stays as it is when it is made strict, so a manifest in strict
JSON is the manifest that its document writes. And every text, one that is no JSON at all
included, stays as it is once it was made strict. -/
theorem toStrict_stable :
    (∀ (text : String) (document : Json), Json.read text = .ok document →
      toStrict text = text ∧ Manifest.read text = Manifest.ofJson document) ∧
    ∀ text : String, toStrict (toStrict text) = toStrict text := by
  constructor
  -- any text is divided, also one that is not read
  · intro text document h
    have hchars : strictChars text.toList = text.toList :=
      strictChars_of_readText (read_eq_ok.1 h)
    have hsame : toStrict text = text := by rw [toStrict, hchars, String.ofList_toList]
    refine ⟨hsame, ?_⟩
    rw [Manifest.read, hsame, h]
    rfl
  · intro text
    obtain ⟨parts, hparts⟩ := exists_divided text.toList
    have hchars : strictChars (strictChars text.toList) = strictChars text.toList :=
      stripped_stripped hparts (.inl rfl)
    rw [toStrict, toStrict, String.toList_ofList, hchars]

/-- An array of one address, in which slashes, a star and a comma in front of a bracket are
characters of a string. -/
theorem toStrict_stable_address :
    Json.read "[\"http://a/*,]\"]" = .ok (.array [.string "http://a/*,]"]) ∧
      toStrict "[\"http://a/*,]\"]" = "[\"http://a/*,]\"]" := by
  have hread : Json.read "[\"http://a/*,]\"]" = .ok (.array [.string "http://a/*,]"]) := by cbv
  exact ⟨hread, (toStrict_stable.1 _ _ hread).1⟩

end XrManifest.Json.Relaxed
