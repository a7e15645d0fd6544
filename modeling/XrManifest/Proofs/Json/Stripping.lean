import XrManifest.Json.Relaxed
import XrManifest.Proofs.Json.Phrases

/-!
# Tokens of relaxed text

What becomes of the tokens and gaps of a relaxed text when it is made strict: gaps
become white space, and tokens stay, but for the commas that `dropTrailing` takes
away (`stripped_writes`). In the other direction a text that becomes tokens and white
space was tokens and gaps (`writes_of_stripped`).
-/

namespace XrManifest.Json.Relaxed

/-- The strict text of a text that stands outside strings and comments. -/
def stripped (afterValue : Bool) (text : List Char) : List Char :=
  blanked afterValue (marked .code text)

/-! ## Gaps become white space -/

/-- Characters that leave nothing but white space. -/
def Vacant (marks : List (Char × Role)) : Prop :=
  ∀ m ∈ marks, m.2 = .comment ∨ (m.2 = .code ∧ Json.isSpace m.1 = true)

theorem Vacant.append {marks others : List (Char × Role)} (h : Vacant marks)
    (hothers : Vacant others) : Vacant (marks ++ others) := by
  intro m hm
  rcases List.mem_append.1 hm with hm | hm
  · exact h m hm
  · exact hothers m hm

/-- A comment leaves nothing but white space. -/
theorem vacant_comment (text : List Char) : Vacant (text.map fun c => (c, Role.comment)) := by
  intro m hm
  rcases List.mem_map.1 hm with ⟨c, -, rfl⟩
  exact .inl rfl

theorem vacant_space {c : Char} (hc : Json.isSpace c = true) : Vacant [(c, Role.code)] := by
  intro m hm
  rw [List.mem_singleton.1 hm]
  exact .inr ⟨rfl, hc⟩

theorem blank_spaces (c : Char) : Blank (spaces c) := by
  intro d hd
  unfold spaces at hd
  split at hd
  case isTrue hc =>
    rw [List.mem_singleton.1 hd, hc]
    rfl
  case isFalse =>
    rw [(List.mem_replicate.1 hd).2]
    rfl

/-- The white space of JSON is among that around a trailing comma. -/
theorem relaxed_isSpace {c : Char} (hc : Json.isSpace c = true) : isSpace c = true := by
  rcases isSpace_cases hc with rfl | rfl | rfl | rfl <;> rfl

theorem comma_not_isSpace : Json.isSpace ',' = false := rfl

/-- Vacant characters become white space, and nothing behind them changes. -/
theorem blanked_vacant {marks : List (Char × Role)} (h : Vacant marks) :
    ∃ blank, Blank blank ∧ ∀ afterValue rest,
      blanked afterValue (marks ++ rest) = blank ++ blanked afterValue rest := by
  induction marks with
  | nil => exact ⟨[], by simp [Blank], fun _ _ => rfl⟩
  | cons m marks ih =>
    rcases ih fun x hx => h x (List.mem_cons_of_mem m hx) with ⟨blank, hblank, hrest⟩
    rcases m with ⟨c, role⟩
    rcases h (c, role) (by simp) with hrole | ⟨hrole, hc⟩
    · -- a character of a comment
      have hcomment : role = .comment := hrole
      refine ⟨spaces c ++ blank, (blank_spaces c).append hblank, fun afterValue rest => ?_⟩
      simp only [List.cons_append, hcomment, blanked, hrest, List.append_assoc]
    · -- white space between comments
      have hcode : role = .code := hrole
      have hspace : Json.isSpace c = true := hc
      have hcomma : c ≠ ',' := by
        rintro rfl
        rw [comma_not_isSpace] at hspace
        exact absurd hspace (by decide)
      refine ⟨c :: blank, ?_, fun afterValue rest => ?_⟩
      · intro d hd
        rcases List.mem_cons.1 hd with rfl | hd
        · exact hspace
        · exact hblank d hd
      · simp only [List.cons_append, hcode, blanked, hcomma, relaxed_isSpace hspace, if_true,
          if_false, hrest]

/-- No closing bracket is seen or hidden by vacant characters. -/
theorem closerFollows_vacant {marks : List (Char × Role)} (h : Vacant marks)
    (rest : List (Char × Role)) : closerFollows (marks ++ rest) = closerFollows rest := by
  induction marks with
  | nil => rfl
  | cons m marks ih =>
    have htail := ih fun x hx => h x (List.mem_cons_of_mem m hx)
    rcases m with ⟨c, role⟩
    rcases h (c, role) (by simp) with hrole | ⟨hrole, hc⟩
    · have hcomment : role = .comment := hrole
      simp only [List.cons_append, hcomment, closerFollows, htail]
    · have hcode : role = .code := hrole
      have hspace : isSpace c = true := relaxed_isSpace hc
      simp only [List.cons_append, hcode, closerFollows, hspace, if_true, htail]

/-- A character that starts neither a string nor a comment is read as code. -/
theorem marked_code {c : Char} {rest : List Char} (hquote : c ≠ '"') (hslash : c ≠ '/') :
    marked .code (c :: rest) = (c, .code) :: marked .code rest := by
  simp [marked, Scope.read, hquote, hslash]

/-- So is a slash in front of neither a slash nor a star. -/
theorem read_slash {rest : List Char} (h : ∀ d ∈ rest.head?, d ≠ '/' ∧ d ≠ '*') :
    Scope.code.read '/' rest = (.code, .code) := by
  simp only [Scope.read]
  rw [if_neg (by decide), if_pos trivial]
  split
  case h_1 => exact absurd rfl (h '/' rfl).1
  case h_2 => exact absurd rfl (h '*' rfl).2
  case h_3 => rfl

theorem marked_space {c : Char} {rest : List Char} (hc : Json.isSpace c = true) :
    marked .code (c :: rest) = (c, .code) :: marked .code rest := by
  rcases isSpace_cases hc with rfl | rfl | rfl | rfl <;> exact marked_code (by decide) (by decide)

/-- A line comment goes on up to its line break. -/
theorem marked_lineComment {body : List Char} (hbody : '\n' ∉ body) (rest : List Char) :
    marked .lineComment (body ++ rest) =
      body.map (fun c => (c, Role.comment)) ++ marked .lineComment rest := by
  induction body with
  | nil => rfl
  | cons c body ih =>
    have hc : c ≠ '\n' := fun h => hbody (by simp [h])
    have htail := ih fun h => hbody (by simp [h])
    simp [marked, Scope.read, hc, htail]

/-- The mark that ends a comment is found behind its body. -/
theorem endsBlock_append (body rest : List Char) :
    endsBlock (body ++ '*' :: '/' :: rest) = true := by
  induction body with
  | nil => rfl
  | cons c body ih =>
    unfold endsBlock
    split
    case h_1 => rfl
    case h_2 heq => rw [← (List.cons.inj heq).2]; exact ih
    case h_3 heq => cases heq

/-- A block comment does not end inside of its body. -/
theorem not_end_in_body {c : Char} {body : List Char} (hbody : ¬ ['*', '/'] <:+: c :: body)
    (rest : List Char) : ¬ (c = '*' ∧ (body ++ '*' :: '/' :: rest).head? = some '/') := by
  rintro ⟨rfl, hslash⟩
  cases body with
  | nil => exact absurd hslash (by simp)
  | cons d body =>
    have hd : d = '/' := by simpa using hslash
    exact hbody ⟨[], body, by rw [hd]; rfl⟩

/-- A block comment goes on up to the first mark that ends it. -/
theorem marked_blockComment {body : List Char} (hbody : ¬ ['*', '/'] <:+: body)
    (rest : List Char) :
    marked .blockComment (body ++ '*' :: '/' :: rest) =
      (body ++ ['*', '/']).map (fun c => (c, Role.comment)) ++ marked .code rest := by
  induction body with
  | nil => rfl
  | cons c body ih =>
    have htail := ih (not_blockEnd_of_cons hbody)
    have hend := not_end_in_body hbody rest
    simp only [List.cons_append, marked, Scope.read, hend, if_false, htail, List.map_cons]

/-- The characters of a gap are vacant, whatever stands behind it. -/
theorem marked_gap {gap : List Char} (h : Gap gap) :
    ∃ marks, Vacant marks ∧ ∀ rest, marked .code (gap ++ rest) = marks ++ marked .code rest := by
  induction h with
  | nil => exact ⟨[], by simp [Vacant], fun _ => rfl⟩
  | space hc _ ih =>
    rcases ih with ⟨marks, hmarks, hrest⟩
    refine ⟨_, (vacant_space hc).append hmarks, fun rest => ?_⟩
    rw [List.cons_append, marked_space hc, hrest]
    rfl
  | @line body before hbody _ ih =>
    rcases ih with ⟨marks, hmarks, hrest⟩
    refine ⟨_, ((vacant_comment ('/' :: '/' :: body)).append (vacant_space (c := '\n') rfl)).append
      hmarks, fun rest => ?_⟩
    -- the line feed is no part of the comment
    have hline := marked_lineComment hbody ('\n' :: (before ++ rest))
    simp [marked, Scope.read, hline, hrest]
  | @block body before hbody _ ih =>
    rcases ih with ⟨marks, hmarks, hrest⟩
    refine ⟨_, (vacant_comment ('/' :: '*' :: (body ++ ['*', '/']))).append hmarks, fun rest => ?_⟩
    have hblock := marked_blockComment hbody (before ++ rest)
    simp [marked, Scope.read, endsBlock_append, hblock, hrest]

/-- So are those of the gap at the end of a text. -/
theorem vacant_lastGap {gap : List Char} (h : LastGap gap) : Vacant (marked .code gap) := by
  have hnil : Vacant (marked .code []) := by simp [marked, Vacant]
  unfold LastGap at h
  generalize hline : gap ++ ['\n'] = line at h
  induction h generalizing gap with
  | nil => exact absurd hline (by simp)
  | @space c rest hc hrest ih =>
    cases gap with
    | nil => exact hnil
    | cons d gap =>
      rcases List.cons.inj hline with ⟨rfl, htail⟩
      rw [marked_space hc]
      exact (vacant_space hc).append (ih htail)
  | @line body rest hbody hrest ih =>
    rcases List.eq_nil_or_concat rest with rfl | ⟨rest, d, rfl⟩
    · -- the added line break ends the comment
      have hgap : gap = '/' :: '/' :: body := by
        have hsame : gap ++ ['\n'] = ('/' :: '/' :: body) ++ ['\n'] := by simpa using hline
        exact List.append_cancel_right hsame
      have hmarks := marked_lineComment hbody []
      rw [List.append_nil] at hmarks
      have hall : marked .code gap = ('/' :: '/' :: body).map fun c => (c, Role.comment) := by
        simp [hgap, marked, Scope.read, hmarks]
      rw [hall]
      exact vacant_comment _
    · have hsame : gap ++ ['\n'] = ('/' :: '/' :: (body ++ '\n' :: rest)) ++ [d] := by
        simpa using hline
      rcases List.append_inj' hsame rfl with ⟨rfl, hd⟩
      have htail : Vacant (marked .code rest) := ih (by rw [hd, List.concat_eq_append])
      have hmarks := marked_lineComment hbody ('\n' :: rest)
      have hall : marked .code ('/' :: '/' :: (body ++ '\n' :: rest)) =
          ('/' :: '/' :: body).map (fun c => (c, Role.comment)) ++
            ([('\n', Role.code)] ++ marked .code rest) := by
        simp [marked, Scope.read, hmarks]
      rw [hall]
      exact (vacant_comment _).append ((vacant_space rfl).append htail)
  | @block body rest hbody hrest ih =>
    rcases List.eq_nil_or_concat rest with rfl | ⟨rest, d, rfl⟩
    · -- a line break does not end a block comment
      have hsame : gap ++ ['\n'] = ('/' :: '*' :: (body ++ ['*'])) ++ ['/'] := by
        simpa using hline
      exact absurd (List.append_inj' hsame rfl).2 (by decide)
    · have hsame : gap ++ ['\n'] = ('/' :: '*' :: (body ++ '*' :: '/' :: rest)) ++ [d] := by
        simpa using hline
      rcases List.append_inj' hsame rfl with ⟨rfl, hd⟩
      have htail : Vacant (marked .code rest) := ih (by rw [hd, List.concat_eq_append])
      have hmarks := marked_blockComment hbody rest
      have hall : marked .code ('/' :: '*' :: (body ++ '*' :: '/' :: rest)) =
          ('/' :: '*' :: (body ++ ['*', '/'])).map (fun c => (c, Role.comment)) ++
            marked .code rest := by
        simp [marked, Scope.read, endsBlock_append, hmarks]
      rw [hall]
      exact (vacant_comment _).append htail

/-- A gap becomes white space. -/
theorem stripped_gap {gap : List Char} (h : Gap gap) :
    ∃ blank, Blank blank ∧ ∀ afterValue rest,
      stripped afterValue (gap ++ rest) = blank ++ stripped afterValue rest := by
  rcases marked_gap h with ⟨marks, hmarks, hrest⟩
  rcases blanked_vacant hmarks with ⟨blank, hblank, hstrip⟩
  exact ⟨blank, hblank, fun afterValue rest => by rw [stripped, hrest, hstrip, stripped]⟩

/-- The gap at the end of a text leaves white space. -/
theorem stripped_lastGap {gap : List Char} (h : LastGap gap) (afterValue : Bool) :
    Blank (stripped afterValue gap) := by
  rcases blanked_vacant (vacant_lastGap h) with ⟨blank, hblank, hstrip⟩
  have hall := hstrip afterValue []
  simp only [List.append_nil, blanked] at hall
  rw [stripped, hall]
  exact hblank

/-! ## Tokens stay -/

/-- What stands between quotes is marked as a string. -/
theorem marked_enclosed {inside : List Char} (h : Enclosed inside) (rest : List Char) :
    marked .string (inside ++ rest) =
      inside.map (fun c => (c, Role.string)) ++ marked .string rest := by
  induction h with
  | nil => rfl
  | plain hquote hslash _ ih => simp [marked, Scope.read, hquote, hslash, ih]
  | escaped _ ih => simp [marked, Scope.read, ih]

/-- So is the quote that ends it. -/
theorem marked_quoted {inside : List Char} (h : Enclosed inside) (rest : List Char) :
    marked .string (inside ++ '"' :: rest) =
      (inside ++ ['"']).map (fun c => (c, Role.string)) ++ marked .code rest := by
  rw [marked_enclosed h, List.map_append, List.append_assoc]
  rfl

/-- A string is taken over as it is, and a value ends with it. -/
theorem blanked_string {text : List Char} (hne : text ≠ []) (afterValue : Bool)
    (rest : List (Char × Role)) :
    blanked afterValue (text.map (fun c => (c, Role.string)) ++ rest) =
      text ++ blanked true rest := by
  induction text generalizing afterValue with
  | nil => exact absurd rfl hne
  | cons c text ih =>
    cases text with
    | nil => rfl
    | cons d text =>
      have htail := ih (by simp) true
      simpa [blanked] using htail

/-- No character of a word is white space, not even around a trailing comma. -/
theorem not_relaxed_isSpace {c : Char} (hc : isWordChar c = true) : isSpace c = false := by
  have hne : ∀ d, isWordChar d = false → c ≠ d := fun d hd => ne_of_isWordChar hc hd
  simp [isSpace, hne ' ' rfl, hne '\t' rfl, hne '\n' rfl, hne '\x0c' rfl, hne '\r' rfl]

/-- A word character is code, and ends a value. -/
theorem stripped_wordChar {c : Char} (hc : isWordChar c = true) (afterValue : Bool)
    (rest : List Char) : stripped afterValue (c :: rest) = c :: stripped true rest := by
  have hne : ∀ d, isWordChar d = false → c ≠ d := fun d hd => ne_of_isWordChar hc hd
  have hopener : isOpener c = false := by
    simp [isOpener, hne '[' rfl, hne '\x7b' rfl, hne ':' rfl]
  simp only [stripped, marked_code (hne '"' rfl) (hne '/' rfl), blanked, hne ',' rfl,
    not_relaxed_isSpace hc, hopener, if_false, Bool.false_eq_true, Bool.not_false]

/-- A word is taken over as it is. -/
theorem stripped_word {letters : List Char} (hword : IsWord letters) (afterValue : Bool)
    (rest : List Char) : stripped afterValue (letters ++ rest) = letters ++ stripped true rest := by
  rcases hword with ⟨hne, hall⟩
  induction letters generalizing afterValue with
  | nil => exact absurd rfl hne
  | cons c letters ih =>
    rw [List.cons_append, stripped_wordChar (hall c (by simp))]
    cases letters with
    | nil => rfl
    | cons d letters =>
      have htail := ih true (by simp) fun x hx => hall x (List.mem_cons_of_mem c hx)
      rw [htail]
      rfl

/-- A token other than a comma stays as it is. -/
theorem stripped_token {token : Token} (h : token ≠ .mark .comma) (afterValue : Bool)
    (rest : List Char) :
    stripped afterValue (token.text ++ rest) = token.text ++ stripped token.endsValue rest := by
  cases token with
  | mark m => cases m <;> first | exact absurd rfl h | rfl
  | quoted inside hinside =>
    have hmarks : marked .code ('"' :: (inside ++ '"' :: rest)) =
        ('"' :: (inside ++ ['"'])).map (fun c => (c, Role.string)) ++ marked .code rest := by
      simp [marked, Scope.read, marked_quoted hinside]
    simp only [Token.text, List.cons_append, List.append_assoc, List.nil_append, stripped]
    rw [hmarks, blanked_string (by simp)]
    simp [Token.endsValue]
  | word letters hword => exact stripped_word hword afterValue rest

/-- A comma that is read as code, in front of `rest`. -/
theorem stripped_comma (afterValue : Bool) (rest : List Char) :
    stripped afterValue (',' :: rest) =
      (if afterValue && closerFollows (marked .code rest) then ' ' else ',') ::
        stripped false rest := rfl

/-- A closing bracket comes next when it is the next token. -/
theorem closerFollows_token (token : Token) (rest : List Char) :
    closerFollows (marked .code (token.text ++ rest)) = token.closes := by
  cases token with
  | mark m => cases m <;> rfl
  | quoted inside _ => simp [Token.text, marked, Scope.read, closerFollows, Token.closes]
  | word letters hword =>
    cases letters with
    | nil => exact absurd rfl hword.ne_nil
    | cons c letters =>
      have hc : isWordChar c = true := hword.all c (by simp)
      -- no character of a word is a quote, a slash or a bracket
      have hne : ∀ d, isWordChar d = false → c ≠ d := fun d hd => ne_of_isWordChar hc hd
      have hcloser : isCloser c = false := by simp [isCloser, hne ']' rfl, hne '\x7d' rfl]
      simp only [Token.text, List.cons_append, marked_code (hne '"' rfl) (hne '/' rfl),
        closerFollows, not_relaxed_isSpace hc, hcloser, Token.closes, if_false, Bool.false_eq_true]

/-- Behind a gap, a closing bracket follows exactly when it is the next token. -/
theorem closerFollows_spells {tokens : List Token} {text rest : List Char}
    (h : Spells Gap tokens text rest) (hrest : LastGap rest) :
    closerFollows (marked .code text) = tokens.head?.any Token.closes := by
  cases tokens with
  | nil =>
    have htext : text = rest := h
    have hall := closerFollows_vacant (vacant_lastGap hrest) []
    rw [List.append_nil] at hall
    rw [htext, hall]
    rfl
  | cons token tokens =>
    rcases h with ⟨before, behind, rfl, hbefore, -, -⟩
    rcases marked_gap hbefore with ⟨marks, hmarks, hmarked⟩
    rw [hmarked, closerFollows_vacant hmarks, closerFollows_token]
    rfl

/-- The first character of a text stays or becomes a space. -/
theorem head?_stripped (afterValue : Bool) (c : Char) (rest : List Char) :
    ∀ d ∈ (stripped afterValue (c :: rest)).head?, d = c ∨ d = ' ' := by
  intro d hd
  have hstep : stripped afterValue (c :: rest) =
      blanked afterValue ((c, (Scope.code.read c rest).1) ::
        marked (Scope.code.read c rest).2 rest) := rfl
  rw [hstep] at hd
  cases hrole : (Scope.code.read c rest).1 with
  | comment =>
    -- a comment starts with its slash, which becomes a space
    have hslash : c = '/' := by
      by_contra hne
      by_cases hquote : c = '"' <;> simp [Scope.read, hne, hquote] at hrole
    subst hslash
    have hspace : ' ' = d := by simpa [hrole, blanked, spaces, Char.utf8Size] using hd
    exact .inr hspace.symm
  | string | unclosed =>
    have hsame : c = d := by simpa [hrole, blanked] using hd
    exact .inl hsame.symm
  | code =>
    simp only [hrole, blanked] at hd
    split at hd
    case isTrue =>
      split at hd
      case isTrue => exact .inr (by simpa using hd.symm)
      case isFalse => exact .inl (by simpa using hd.symm)
    case isFalse =>
      split at hd <;> exact .inl (by simpa using hd.symm)

/-- What stands behind a word still does when comments become spaces. -/
theorem atBoundary_stripped {text : List Char} (h : AtBoundary text) (afterValue : Bool) :
    AtBoundary (stripped afterValue text) := by
  cases text with
  | nil => exact h
  | cons c rest =>
    have hc : isWordChar c = false := h c (by simp)
    intro d hd
    rcases head?_stripped afterValue c rest d hd with rfl | rfl
    · exact hc
    · rfl

/-! ## From relaxed to strict tokens -/

/-- The tokens without the commas that become spaces: those behind a value and in front
of a closing bracket. -/
def dropTrailing : (afterValue : Bool) → List Token → List Token
  | _, [] => []
  | afterValue, token :: tokens =>
    if token = .mark .comma ∧ afterValue && tokens.head?.any Token.closes then
      dropTrailing false tokens
    else token :: dropTrailing token.endsValue tokens

/-- White space can be put in front of a text. -/
theorem writes_blank {tokens : List Token} {blank text : List Char} (hblank : Blank blank)
    (h : Writes Blank Blank tokens text) : Writes Blank Blank tokens (blank ++ text) :=
  h.prepend (fun _ hx => hblank.append hx) (fun _ hx => hblank.append hx)

/-- The tokens of a relaxed text stay in its strict text, trailing commas apart. -/
theorem stripped_writes {tokens : List Token} {text : List Char}
    (h : Writes Gap LastGap tokens text) (afterValue : Bool) :
    Writes Blank Blank (dropTrailing afterValue tokens) (stripped afterValue text) := by
  rcases h with ⟨rest, hspells, hrest⟩
  induction tokens generalizing text afterValue with
  | nil =>
    have htext : text = rest := hspells
    exact ⟨_, rfl, htext ▸ stripped_lastGap hrest afterValue⟩
  | cons token tokens ih =>
    rcases hspells with ⟨before, behind, rfl, hbefore, hends, hspells⟩
    rcases stripped_gap hbefore with ⟨blank, hblank, hstrip⟩
    rw [hstrip]
    refine writes_blank hblank ?_
    have hcloser := closerFollows_spells hspells hrest
    by_cases hdrop : token = .mark .comma ∧ (afterValue && tokens.head?.any Token.closes) = true
    · -- a trailing comma leaves a space
      rw [dropTrailing, if_pos hdrop, hdrop.1]
      have hspace : stripped afterValue ((Token.mark .comma).text ++ behind) =
          [' '] ++ stripped false behind := by
        have hflag := hdrop.2
        rw [← hcloser] at hflag
        simp [Token.text, Mark.char, stripped_comma, hflag]
      rw [hspace]
      exact writes_blank (by simp [Blank, Json.isSpace]) (ih false hspells)
    · rw [dropTrailing, if_neg hdrop]
      have hkeep : stripped afterValue (token.text ++ behind) =
          token.text ++ stripped token.endsValue behind := by
        by_cases hcomma : token = .mark .comma
        · subst hcomma
          have hflag : (afterValue && closerFollows (marked .code behind)) = false := by
            rw [hcloser]
            simpa using hdrop
          simp [Token.text, Mark.char, stripped_comma, hflag, Token.endsValue]
        · exact stripped_token hcomma afterValue behind
      rw [hkeep]
      rcases ih token.endsValue hspells with ⟨left, hwrites, hleft⟩
      refine ⟨left, ⟨[], _, rfl, by simp [Blank], ?_, hwrites⟩, hleft⟩
      -- a word ends where it did, as what is behind it starts in the same way
      cases token with
      | word letters hword => exact atBoundary_stripped hends _
      | mark m => trivial
      | quoted inside hinside => trivial

/-! ## From strict to relaxed tokens -/

/-- A gap can be put in front of a text. -/
theorem writes_gap {tokens : List Token} {gap text : List Char} (hgap : Gap gap)
    (h : Writes Gap LastGap tokens text) : Writes Gap LastGap tokens (gap ++ text) := by
  refine h.prepend (fun _ hx => hgap.append hx) ?_
  intro last hlast
  unfold LastGap
  rw [List.append_assoc]
  exact hgap.append hlast

/-- A token can be put in front of a text that does not go on with it. -/
theorem writes_token {token : Token} {tokens : List Token} {text : List Char}
    (hends : token.EndsAt text) (h : Writes Gap LastGap tokens text) :
    Writes Gap LastGap (token :: tokens) (token.text ++ text) := by
  rcases h with ⟨rest, hspells, hrest⟩
  exact ⟨rest, ⟨[], text, rfl, .nil, hends, hspells⟩, hrest⟩

/-- White space can be taken from the front of a strict text. -/
theorem writes_of_blank {tokens : List Token} {blank text : List Char} (hblank : Blank blank)
    (h : Writes Blank Blank tokens (blank ++ text)) : Writes Blank Blank tokens text := by
  rcases h with ⟨rest, hspells, hrest⟩
  cases tokens with
  | nil =>
    have htext : blank ++ text = rest := hspells
    exact ⟨text, rfl, fun c hc => hrest c (htext ▸ List.mem_append_right blank hc)⟩
  | cons token tokens =>
    rcases spells_cons.1 hspells with ⟨behind, htext, hends, hspells⟩
    rw [skipSpaces_append hblank] at htext
    exact ⟨rest, spells_cons.2 ⟨behind, htext, hends, hspells⟩, hrest⟩

/-- A strict text that starts with something else than white space starts with a token. -/
theorem writes_first {tokens : List Token} {c : Char} {text : List Char}
    (hc : Json.isSpace c = false) (h : Writes Blank Blank tokens (c :: text)) :
    ∃ token more behind, tokens = token :: more ∧ c :: text = token.text ++ behind ∧
      token.EndsAt behind ∧ Writes Blank Blank more behind := by
  rcases h with ⟨rest, hspells, hrest⟩
  cases tokens with
  -- the text would be blank
  | nil =>
    have htext : c :: text = rest := hspells
    rw [hrest c (by rw [← htext]; simp)] at hc
    exact absurd hc (by decide)
  | cons token tokens =>
    rcases spells_cons.1 hspells with ⟨behind, htext, hends, hspells⟩
    have hskip : skipSpaces (c :: text) = c :: text := by simp [skipSpaces, hc]
    exact ⟨token, tokens, behind, rfl, hskip.symm.trans htext, hends, rest, hspells, hrest⟩

/-- No token starts with a slash. -/
theorem not_writes_slash (tokens : List Token) (text : List Char) :
    ¬ Writes Blank Blank tokens ('/' :: text) := by
  intro h
  rcases writes_first rfl h with ⟨token, _, behind, -, htext, -, -⟩
  exact (token.gapFree behind '/' (by rw [← htext]; rfl)).2 rfl

/-- Characters of a string are those of the text it was made from. -/
theorem blanked_enclosed {inside : List Char} (hinside : Enclosed inside)
    {text behind : List Char}
    (h : blanked true (marked .string text) = inside ++ '"' :: behind) :
    ∃ rest, text = inside ++ '"' :: rest ∧ behind = stripped true rest := by
  induction hinside generalizing text with
  | nil =>
    cases text with
    | nil => exact absurd h (by simp [marked, blanked])
    | cons c text =>
      rcases List.cons.inj h with ⟨rfl, htail⟩
      exact ⟨text, rfl, htail.symm⟩
  | @plain d inside hquote hslash _ ih =>
    cases text with
    | nil => exact absurd h (by simp [marked, blanked])
    | cons c text =>
      have hd : c = d := (List.cons.inj h).1
      subst hd
      have htail : blanked true (marked .string text) = inside ++ '"' :: behind := by
        simpa [marked, Scope.read, blanked, hquote, hslash] using h
      rcases ih htail with ⟨rest, rfl, hbehind⟩
      exact ⟨rest, rfl, hbehind⟩
  -- two characters are taken at once, so the text has to have both
  | @escaped d inside _ ih =>
    cases text with
    | nil => exact absurd h (by simp [marked, blanked])
    | cons c text =>
      rcases List.cons.inj h with ⟨rfl, hescaped⟩
      cases text with
      | nil => exact absurd hescaped (by simp [marked, blanked])
      | cons e text =>
        rcases List.cons.inj hescaped with ⟨rfl, htail⟩
        rcases ih htail with ⟨rest, rfl, hbehind⟩
        exact ⟨rest, rfl, hbehind⟩

/-- So are the characters of a word. -/
theorem stripped_eq_word {letters text behind : List Char}
    (hall : ∀ c ∈ letters, isWordChar c = true) {afterValue : Bool}
    (hne : letters = [] → afterValue = true)
    (h : stripped afterValue text = letters ++ behind) :
    ∃ rest, text = letters ++ rest ∧ behind = stripped true rest := by
  induction letters generalizing text afterValue with
  | nil => exact ⟨text, rfl, by rw [← hne rfl]; exact h.symm⟩
  | cons d letters ih =>
    have hd : isWordChar d = true := hall d (by simp)
    cases text with
    | nil => exact absurd h (by simp [stripped, marked, blanked])
    | cons c text =>
      by_cases hc : isWordChar c = true
      · rw [stripped_wordChar hc] at h
        rcases List.cons.inj h with ⟨rfl, htail⟩
        rcases ih (fun x hx => hall x (List.mem_cons_of_mem c hx)) (fun _ => rfl) htail with
          ⟨rest, rfl, hbehind⟩
        exact ⟨rest, rfl, hbehind⟩
      · -- a character of another kind does not become one of a word
        have hboundary : AtBoundary (c :: text) := by
          intro x hx
          have hx' : c = x := by simpa using hx
          rw [← hx']
          simpa using hc
        have hhead := atBoundary_stripped hboundary afterValue d (by rw [h]; rfl)
        rw [hd] at hhead
        exact absurd hhead (by decide)

/-- A block comment that ends has a body without `*/`. -/
theorem exists_of_endsBlock {text : List Char} (h : endsBlock text = true) :
    ∃ body rest, text = body ++ '*' :: '/' :: rest ∧ ¬ ['*', '/'] <:+: body := by
  induction text with
  | nil => exact absurd h (by simp [endsBlock])
  | cons c text ih =>
    by_cases hend : c = '*' ∧ text.head? = some '/'
    · rcases hend with ⟨rfl, hslash⟩
      cases text with
      | nil => exact absurd hslash (by simp)
      | cons d rest =>
        have hd : d = '/' := by simpa using hslash
        exact ⟨[], rest, by rw [hd]; rfl, by simp⟩
    · -- the comment ends further on
      have htail : endsBlock text = true := by
        unfold endsBlock at h
        split at h
        case h_1 heq =>
          rcases List.cons.inj heq with ⟨rfl, rfl⟩
          exact absurd ⟨rfl, rfl⟩ hend
        case h_2 heq =>
          rw [(List.cons.inj heq).2]
          exact h
        case h_3 heq => cases heq
      rcases ih htail with ⟨body, rest, rfl, hbody⟩
      refine ⟨c :: body, rest, rfl, fun hinfix => ?_⟩
      -- an end in the longer body is at its start or in the rest
      rcases List.infix_cons_iff.1 hinfix with ⟨more, hprefix⟩ | hinfix
      · rcases List.cons.inj hprefix with ⟨rfl, htext⟩
        exact hend ⟨rfl, by rw [← htext]; rfl⟩
      · exact hbody hinfix

/-- What starts with a slash and becomes tokens is a comment and what is behind it. -/
theorem comment_of_stripped {tokens : List Token} {afterValue : Bool} {text : List Char}
    (h : Writes Blank Blank tokens (stripped afterValue ('/' :: text))) :
    LastGap ('/' :: text) ∨
      ∃ gap rest, Gap gap ∧ gap ≠ [] ∧ '/' :: text = gap ++ rest := by
  -- read as anything but a comment, the slash would stay, and it starts no token
  have hcode : ∀ role next, Scope.code.read '/' text = (role, next) → role ≠ .comment →
      role ≠ .string → False := by
    intro role next hread hcomment hstring
    refine not_writes_slash tokens
      (blanked (if role = .code then true else afterValue) (marked next text)) ?_
    have hstrip : stripped afterValue ('/' :: text) =
        blanked afterValue (('/', role) :: marked next text) := by
      rw [stripped, marked, hread]
    rw [hstrip] at h
    cases role with
    | comment => exact absurd rfl hcomment
    | string => exact absurd rfl hstring
    | code => exact h
    | unclosed => exact h
  rcases text with _ | ⟨d, text⟩
  · exact (hcode _ _ rfl (by decide) (by decide)).elim
  · by_cases hline : d = '/'
    · subst hline
      by_cases hbreak : '\n' ∈ text
      · rcases List.eq_append_cons_of_mem hbreak with ⟨body, rest, rfl, hbody⟩
        exact .inr ⟨'/' :: '/' :: (body ++ ['\n']), rest, .line hbody .nil, by simp, by simp⟩
      · exact .inl (Gap.line hbreak .nil)
    by_cases hblock : d = '*'
    · subst hblock
      by_cases hend : endsBlock text = true
      · rcases exists_of_endsBlock hend with ⟨body, rest, rfl, hbody⟩
        exact .inr ⟨'/' :: '*' :: (body ++ ['*', '/']), rest, .block hbody .nil, by simp, by simp⟩
      · have hread : Scope.code.read '/' ('*' :: text) = (.unclosed, .unclosed) := by
          simp [Scope.read, hend]
        exact (hcode _ _ hread (by decide) (by decide)).elim
    · have hread : Scope.code.read '/' (d :: text) = (.code, .code) :=
        read_slash (by simp [hline, hblock])
      exact (hcode _ _ hread (by decide) (by decide)).elim

/-- How a text that becomes tokens and white space starts: it is the last gap, or it goes
on behind a gap or a token with what becomes tokens and white space again. -/
def Steps (text : List Char) : Prop :=
  LastGap text ∨
    (∃ gap rest tokens afterValue, Gap gap ∧ gap ≠ [] ∧ text = gap ++ rest ∧
      Writes Blank Blank tokens (stripped afterValue rest)) ∨
    ∃ (token : Token) (rest : List Char) (tokens : List Token) (afterValue : Bool),
      text = token.text ++ rest ∧ token.EndsAt rest ∧
        Writes Blank Blank tokens (stripped afterValue rest)

/-- A gap in front is a step by itself. -/
theorem steps_of_gap {tokens : List Token} {afterValue : Bool} {gap rest : List Char}
    (hgap : Gap gap) (hne : gap ≠ [])
    (h : Writes Blank Blank tokens (stripped afterValue (gap ++ rest))) : Steps (gap ++ rest) := by
  rcases stripped_gap hgap with ⟨blank, hblank, hstrip⟩
  rw [hstrip] at h
  exact .inr (.inl ⟨gap, rest, tokens, afterValue, hgap, hne, rfl, writes_of_blank hblank h⟩)

/-- A quote starts a string that is closed. -/
theorem steps_of_quote {tokens : List Token} {afterValue : Bool} {text : List Char}
    (h : Writes Blank Blank tokens (stripped afterValue ('"' :: text))) : Steps ('"' :: text) := by
  have hstrip : stripped afterValue ('"' :: text) = '"' :: blanked true (marked .string text) := rfl
  rw [hstrip] at h
  rcases writes_first rfl h with ⟨token, more, behind, rfl, htext, -, hmore⟩
  -- the first token starts with a quote, so it is a string
  cases token with
  | mark m => exact absurd (List.cons.inj htext).1.symm m.char_ne_quote
  | word letters hword => exact absurd (hword.isWordChar_head htext.symm) (by decide)
  | quoted inside hinside =>
    have hinner : blanked true (marked .string text) = inside ++ '"' :: behind := by
      simpa [Token.text] using htext
    rcases blanked_enclosed hinside hinner with ⟨rest, rfl, rfl⟩
    exact .inr (.inr
      ⟨.quoted inside hinside, rest, more, true, by simp [Token.text], trivial, hmore⟩)

/-- A comma is a token, or becomes a space. -/
theorem steps_of_comma {tokens : List Token} {afterValue : Bool} {text : List Char}
    (h : Writes Blank Blank tokens (stripped afterValue (',' :: text))) : Steps (',' :: text) := by
  -- the comma has become a space or is a token
  have hrest : ∃ more, Writes Blank Blank more (stripped false text) := by
    rw [stripped_comma] at h
    split at h
    case isTrue =>
      have hblank : Blank [' '] := by simp [Blank, Json.isSpace]
      exact ⟨tokens, writes_of_blank hblank h⟩
    case isFalse =>
      rcases writes_first rfl h with ⟨token, more, behind, rfl, htext, hends, hmore⟩
      have hsame : token.text ++ behind = (Token.mark .comma).text ++ stripped false text :=
        htext.symm
      rcases Token.unique hsame hends trivial with ⟨-, rfl⟩
      exact ⟨more, hmore⟩
  rcases hrest with ⟨more, hmore⟩
  exact .inr (.inr ⟨.mark .comma, text, more, false, rfl, trivial, hmore⟩)

/-- A boundary in the strict text was one before. -/
theorem atBoundary_of_stripped {afterValue : Bool} {text : List Char}
    (h : AtBoundary (stripped afterValue text)) : AtBoundary text := by
  intro d hd
  by_contra hword
  cases text with
  | nil => exact absurd hd (by simp)
  | cons c text =>
    have hc : c = d := by simpa using hd
    subst hc
    have hfirst := stripped_wordChar (by simpa using hword) afterValue text
    exact hword (h c (by rw [hfirst]; rfl))

/-- Every other character is kept, as a mark or at the start of a word. -/
theorem steps_of_code {tokens : List Token} {afterValue : Bool} {c : Char} {text : List Char}
    (hspace : Json.isSpace c = false) (hquote : c ≠ '"') (hslash : c ≠ '/') (hcomma : c ≠ ',')
    (h : Writes Blank Blank tokens (stripped afterValue (c :: text))) : Steps (c :: text) := by
  -- the character itself stays, whatever it does to the flag
  have hkept : ∃ flag, stripped afterValue (c :: text) = c :: stripped flag text := by
    by_cases hrelaxed : isSpace c = true
    · exact ⟨afterValue, by simp [stripped, marked_code hquote hslash, blanked, hcomma, hrelaxed]⟩
    · exact ⟨!isOpener c, by simp [stripped, marked_code hquote hslash, blanked, hcomma, hrelaxed]⟩
  rcases hkept with ⟨flag, hstrip⟩
  have hfirst : Writes Blank Blank tokens (c :: stripped flag text) := hstrip ▸ h
  rcases writes_first hspace hfirst with ⟨token, more, behind, rfl, htext, hends, hmore⟩
  cases token with
  | mark m =>
    rcases List.cons.inj htext with ⟨rfl, hbehind⟩
    have hmore' : Writes Blank Blank more (stripped flag text) :=
      (show stripped flag text = behind from hbehind) ▸ hmore
    exact .inr (.inr ⟨.mark m, text, more, flag, rfl, trivial, hmore'⟩)
  | quoted inside hinside => exact absurd (List.cons.inj htext).1 hquote
  | word letters hword =>
    rw [← hstrip] at htext
    rcases stripped_eq_word hword.all (fun hnil => absurd hnil hword.ne_nil) htext with
      ⟨rest, hrest, rfl⟩
    exact .inr (.inr ⟨.word letters hword, rest, more, true, hrest,
      atBoundary_of_stripped hends, hmore⟩)

/-- Whatever becomes tokens and white space starts with a gap or a token. -/
theorem steps_of_stripped {tokens : List Token} {afterValue : Bool} {text : List Char}
    (h : Writes Blank Blank tokens (stripped afterValue text)) : Steps text := by
  cases text with
  | nil => exact .inl (.space rfl .nil)
  | cons c text =>
    -- by the first character, as the comma and the slash are special
    by_cases hspace : Json.isSpace c = true
    · have hgap : Gap [c] := .space hspace .nil
      exact steps_of_gap hgap (by simp) h
    by_cases hquote : c = '"'
    · subst hquote
      exact steps_of_quote h
    by_cases hslash : c = '/'
    · subst hslash
      rcases comment_of_stripped h with hlast | ⟨gap, rest, hgap, hne, htext⟩
      · exact .inl hlast
      · rw [htext] at h ⊢
        exact steps_of_gap hgap hne h
    by_cases hcomma : c = ','
    · subst hcomma
      exact steps_of_comma h
    exact steps_of_code (by simpa using hspace) hquote hslash hcomma h

/-- A text that becomes tokens and white space consists of tokens and gaps. -/
theorem writes_of_stripped {tokens : List Token} {text : List Char} {afterValue : Bool}
    (h : Writes Blank Blank tokens (stripped afterValue text)) :
    ∃ relaxed, Writes Gap LastGap relaxed text := by
  -- a token or a comment is taken at once, so the induction is on the length of the text
  induction hn : text.length using Nat.strongRecOn generalizing text tokens afterValue with
  | ind n ih =>
  rcases steps_of_stripped h with hlast | ⟨gap, rest, more, flag, hgap, hne, rfl, hmore⟩ |
    ⟨token, rest, more, flag, rfl, hends, hmore⟩
  · exact ⟨[], text, rfl, hlast⟩
  · -- a gap comes first
    have hlength := List.length_pos_iff.2 hne
    rcases ih _ (by simp [← hn]; omega) hmore rfl with ⟨relaxed, hrelaxed⟩
    exact ⟨relaxed, writes_gap hgap hrelaxed⟩
  · -- a token comes first
    have hlength := List.length_pos_iff.2 token.text_ne_nil
    rcases ih _ (by simp [← hn]; omega) hmore rfl with ⟨relaxed, hrelaxed⟩
    exact ⟨token :: relaxed, writes_token hends hrelaxed⟩

end XrManifest.Json.Relaxed
