import Mathlib.Data.List.Basic
import XrManifest.Json.Reading

/-!
# Tokens of JSON text

A JSON text is a list of tokens with gaps between them. `Spells gap tokens text rest`
says that `text` consists of the tokens, each behind a gap, and of `rest`. Strict and
relaxed text differ in their gaps: white space only (`Blank`), or white space and
comments (`Gap`). The main statement is `Spells.prefix_unique`: a text has at most one
list of tokens, whatever comments it holds.
-/

namespace XrManifest.Json

/-! ## Tokens -/

/-- The characters that give a JSON text its structure. -/
inductive Mark where
  | arrayOpen
  | arrayClose
  | objectOpen
  | objectClose
  | colon
  | comma
deriving DecidableEq, Repr

def Mark.char : Mark → Char
  | arrayOpen => '['
  | arrayClose => ']'
  | objectOpen => '\x7b'
  | objectClose => '\x7d'
  | colon => ':'
  | comma => ','

/-- A text that can stand between the quotes of one string: no quote but behind a
backslash, and no backslash without a character behind it. -/
inductive Enclosed : List Char → Prop where
  | nil : Enclosed []
  | plain {c : Char} {rest : List Char} :
      c ≠ '"' → c ≠ '\\' → Enclosed rest → Enclosed (c :: rest)
  | escaped {c : Char} {rest : List Char} : Enclosed rest → Enclosed ('\\' :: c :: rest)

/-- The characters of numbers and of `null`, `true` and `false`. -/
def isWordChar (c : Char) : Bool := c.isAlphanum || c = '+' || c = '-' || c = '.'

/-- A run of at least one such character. -/
structure IsWord (letters : List Char) : Prop where
  ne_nil : letters ≠ []
  all : ∀ c ∈ letters, isWordChar c = true

/-- The tokens of JSON text. A string keeps its escapes, a number its spelling. -/
inductive Token where
  | mark (m : Mark)
  | quoted (inside : List Char) (enclosed : Enclosed inside)
  | word (letters : List Char) (isWord : IsWord letters)
deriving DecidableEq

/-- A text does not start with a character of the class. -/
def Stops (kind : Char → Bool) (text : List Char) : Prop := ∀ c ∈ text.head?, kind c = false

/-- No character of a word comes next. -/
def AtBoundary (text : List Char) : Prop := Stops isWordChar text

namespace Token

def text : Token → List Char
  | mark m => [m.char]
  | quoted inside _ => '"' :: (inside ++ ['"'])
  | word letters _ => letters

/-- Whether a token ends in front of `behind`: only a word could go on there. -/
def EndsAt : Token → (behind : List Char) → Prop
  | word _ _, behind => AtBoundary behind
  | _, _ => True

end Token

/-! ## Gaps -/

/-- White space, which is all that may stand between the tokens of strict text. -/
def Blank (text : List Char) : Prop := ∀ c ∈ text, isSpace c = true

/-- White space and comments, which may stand between the tokens of relaxed text. -/
inductive Gap : List Char → Prop where
  | nil : Gap []
  | space {c : Char} {rest : List Char} : isSpace c = true → Gap rest → Gap (c :: rest)
  | line {body rest : List Char} :
      '\n' ∉ body → Gap rest → Gap ('/' :: '/' :: (body ++ '\n' :: rest))
  | block {body rest : List Char} :
      ¬ ['*', '/'] <:+: body → Gap rest → Gap ('/' :: '*' :: (body ++ '*' :: '/' :: rest))

/-- The gap at the end of a text, where a line comment can do without its line break. -/
def LastGap (text : List Char) : Prop := Gap (text ++ ['\n'])

/-- No gap comes next. -/
def GapFree (text : List Char) : Prop := ∀ c ∈ text.head?, isSpace c = false ∧ c ≠ '/'

/-- `text` is the tokens, each behind a gap, and then `rest`. -/
def Spells (gap : List Char → Prop) : List Token → (text rest : List Char) → Prop
  | [], text, rest => text = rest
  | token :: tokens, text, rest =>
    ∃ before behind, text = before ++ (token.text ++ behind) ∧ gap before ∧
      token.EndsAt behind ∧ Spells gap tokens behind rest

/-- `text` is the tokens with gaps in front of each of them and behind the last. -/
def Writes (gap last : List Char → Prop) (tokens : List Token) (text : List Char) : Prop :=
  ∃ rest, Spells gap tokens text rest ∧ last rest

/-! ## Tokens and gaps exclude each other -/

theorem isSpace_cases {c : Char} (h : isSpace c = true) :
    c = ' ' ∨ c = '\n' ∨ c = '\t' ∨ c = '\r' := by
  simpa [isSpace, or_assoc] using h

/-- White space ends a word. -/
theorem not_isSpace_of_isWordChar {c : Char} (h : isWordChar c = true) : isSpace c = false := by
  by_contra hspace
  rcases isSpace_cases (by simpa using hspace) with rfl | rfl | rfl | rfl <;>
    exact absurd h (by decide)

theorem ne_of_isWordChar {c d : Char} (h : isWordChar c = true) (hd : isWordChar d = false) :
    c ≠ d := by
  rintro rfl
  rw [h] at hd
  exact absurd hd (by decide)

/-- The marks are told apart by their characters. -/
theorem Mark.char_injective {m n : Mark} (h : m.char = n.char) : m = n := by
  revert h
  cases m <;> cases n <;> decide

/-- A mark ends a word. -/
theorem Mark.isWordChar_char (m : Mark) : isWordChar m.char = false := by
  cases m <;> decide

theorem Mark.char_ne_quote (m : Mark) : m.char ≠ '"' := by
  cases m <;> decide

/-- Every token starts with a character that no gap starts with. -/
theorem Token.gapFree (token : Token) (behind : List Char) : GapFree (token.text ++ behind) := by
  intro c hc
  -- no token starts with white space or with the slash of a comment
  cases token with
  | mark m =>
    have hfirst : m.char = c := by simpa [Token.text] using hc
    rw [← hfirst]
    cases m <;> decide
  | quoted inside _ =>
    have hfirst : '"' = c := by simpa [Token.text] using hc
    rw [← hfirst]
    decide
  | word letters isWord =>
    cases letters with
    | nil => exact absurd rfl isWord.ne_nil
    | cons d letters =>
      have hfirst : d = c := by simpa [Token.text] using hc
      have hd : isWordChar d = true := isWord.all d (by simp)
      rw [← hfirst]
      exact ⟨not_isSpace_of_isWordChar hd, ne_of_isWordChar hd (by decide)⟩

theorem Token.text_ne_nil (token : Token) : token.text ≠ [] := by
  cases token with
  | mark m => simp [Token.text]
  | quoted inside _ => simp [Token.text]
  | word letters isWord => exact isWord.ne_nil

/-- What stands between the quotes of a string ends at the first quote that no
backslash takes. -/
theorem Enclosed.unique {inside other x y : List Char} (hinside : Enclosed inside)
    (hother : Enclosed other) (h : inside ++ '"' :: x = other ++ '"' :: y) :
    inside = other ∧ x = y := by
  induction hinside generalizing other with
  | nil =>
    cases hother with
    | nil => exact ⟨rfl, by simpa using h⟩
    -- a quote that is not escaped would end the string
    | plain hquote _ _ => exact absurd (List.cons.inj h).1.symm hquote
    | escaped _ => exact absurd (List.cons.inj h).1 (by decide)
  | plain hquote hslash _ ih =>
    cases hother with
    | nil => exact absurd (List.cons.inj h).1 hquote
    | plain _ _ hrest =>
      rcases List.cons.inj h with ⟨rfl, htail⟩
      rcases ih hrest htail with ⟨rfl, rfl⟩
      exact ⟨rfl, rfl⟩
    | escaped _ => exact absurd (List.cons.inj h).1 hslash
  | escaped _ ih =>
    cases hother with
    | nil => exact absurd (List.cons.inj h).1 (by decide)
    | plain _ hslash _ => exact absurd (List.cons.inj h).1.symm hslash
    | escaped hrest =>
      rcases List.cons.inj (List.cons.inj h).2 with ⟨rfl, htail⟩
      rcases ih hrest htail with ⟨rfl, rfl⟩
      exact ⟨rfl, rfl⟩

/-- What stops a class of characters stops all that are in it. -/
theorem Stops.mono {kind other : Char → Bool} {text : List Char} (h : Stops other text)
    (hkind : ∀ c, kind c = true → other c = true) : Stops kind text := by
  intro c hc
  by_contra hne
  have hother := h c hc
  rw [hkind c (by simpa using hne)] at hother
  exact absurd hother (by decide)

theorem Stops.append {kind : Char → Bool} {text other : List Char} (htext : Stops kind text)
    (hother : Stops kind other) : Stops kind (text ++ other) := by
  cases text with
  | nil => exact hother
  | cons c text => exact htext

theorem isWordChar_of_isDigit {c : Char} (h : c.isDigit = true) : isWordChar c = true := by
  simp [isWordChar, Char.isAlphanum, h]

/-- A run of characters of one kind ends where the kind changes. -/
theorem span_of_stops {kind : Char → Bool} {run behind : List Char}
    (hrun : ∀ c ∈ run, kind c = true) (hbehind : Stops kind behind) :
    (run ++ behind).takeWhile kind = run ∧ (run ++ behind).dropWhile kind = behind := by
  rw [List.takeWhile_append_of_pos hrun, List.dropWhile_append_of_pos hrun]
  cases behind with
  | nil => simp
  | cons c rest =>
    have hc : kind c = false := hbehind c (by simp)
    simp [hc]

/-- A word starts with a word character. -/
theorem IsWord.isWordChar_head {letters x y : List Char} {c : Char} (hword : IsWord letters)
    (h : letters ++ x = c :: y) : isWordChar c = true := by
  cases letters with
  | nil => exact absurd rfl hword.ne_nil
  | cons d letters =>
    rcases List.cons.inj h with ⟨rfl, -⟩
    exact hword.all d (by simp)

/-- A text starts with at most one token. -/
theorem Token.unique {a b : Token} {x y : List Char} (h : a.text ++ x = b.text ++ y)
    (ha : a.EndsAt x) (hb : b.EndsAt y) : a = b ∧ x = y := by
  cases a with
  | mark m =>
    cases b with
    | mark n =>
      rcases List.cons.inj h with ⟨hchar, rfl⟩
      exact ⟨by rw [Mark.char_injective hchar], rfl⟩
    | quoted inside _ => exact absurd (List.cons.inj h).1 m.char_ne_quote
    | word letters hword =>
      have hchar : isWordChar m.char = true := hword.isWordChar_head h.symm
      rw [m.isWordChar_char] at hchar
      exact absurd hchar (by decide)
  | quoted inside hinside =>
    cases b with
    | mark n => exact absurd (List.cons.inj h).1.symm n.char_ne_quote
    | quoted other hother =>
      have htail : inside ++ '"' :: x = other ++ '"' :: y := by
        simpa [Token.text] using h
      rcases hinside.unique hother htail with ⟨rfl, rfl⟩
      exact ⟨rfl, rfl⟩
    | word letters hword => exact absurd (hword.isWordChar_head h.symm) (by decide)
  | word letters hword =>
    cases b with
    | mark n =>
      have hchar : isWordChar n.char = true := hword.isWordChar_head h
      rw [n.isWordChar_char] at hchar
      exact absurd hchar (by decide)
    | quoted other _ => exact absurd (hword.isWordChar_head h) (by decide)
    | word others hothers =>
      -- both words end where the characters of words end
      have hspan := span_of_stops hword.all ha
      have hspan' := span_of_stops hothers.all hb
      change letters ++ x = others ++ y at h
      rw [h, hspan'.1, hspan'.2] at hspan
      rcases hspan with ⟨rfl, rfl⟩
      exact ⟨rfl, rfl⟩

/-! ## A gap is left in one way -/

/-- The body of a line comment ends at the first line break. -/
theorem lineBody_unique {body other x y : List Char} (hbody : '\n' ∉ body) (hother : '\n' ∉ other)
    (h : body ++ '\n' :: x = other ++ '\n' :: y) : body = other ∧ x = y := by
  induction body generalizing other with
  | nil =>
    -- a longer body would hold the line feed
    cases other with
    | nil => exact ⟨rfl, by simpa using h⟩
    | cons d other => exact absurd (List.mem_cons.2 (.inl (List.cons.inj h).1)) hother
  | cons c body ih =>
    cases other with
    | nil => exact absurd (List.mem_cons.2 (.inl (List.cons.inj h).1.symm)) hbody
    | cons d other =>
      rcases List.cons.inj h with ⟨rfl, htail⟩
      rcases ih (fun h => hbody (by simp [h])) (fun h => hother (by simp [h])) htail with ⟨rfl, rfl⟩
      exact ⟨rfl, rfl⟩

/-- The mark that ends a comment is not found behind its first character either. -/
theorem not_blockEnd_of_cons {c : Char} {body : List Char}
    (h : ¬ ['*', '/'] <:+: c :: body) : ¬ ['*', '/'] <:+: body :=
  fun hbody => h (List.infix_cons hbody)

/-- The body of a block comment ends at the first `*/`. -/
theorem blockBody_unique {body other x y : List Char} (hbody : ¬ ['*', '/'] <:+: body)
    (hother : ¬ ['*', '/'] <:+: other)
    (h : body ++ '*' :: '/' :: x = other ++ '*' :: '/' :: y) : body = other ∧ x = y := by
  induction body generalizing other with
  | nil =>
    rcases other with _ | ⟨c, _ | ⟨d, other⟩⟩
    · exact ⟨rfl, by simpa using h⟩
    · simp at h
    · -- a longer body would hold the end of this one
      rcases List.cons.inj h with ⟨rfl, htail⟩
      rcases List.cons.inj htail with ⟨rfl, -⟩
      exact absurd ⟨[], other, rfl⟩ hother
  | cons c body ih =>
    rcases other with _ | ⟨d, other⟩
    · rcases body with _ | ⟨e, body⟩
      · simp at h
      · rcases List.cons.inj h with ⟨rfl, htail⟩
        rcases List.cons.inj htail with ⟨rfl, -⟩
        exact absurd ⟨[], body, rfl⟩ hbody
    · rcases List.cons.inj h with ⟨rfl, htail⟩
      have hrest := ih (not_blockEnd_of_cons hbody) (not_blockEnd_of_cons hother) htail
      rcases hrest with ⟨rfl, rfl⟩
      exact ⟨rfl, rfl⟩

theorem GapFree.ne_slash_cons {text rest : List Char} (h : GapFree text) : text ≠ '/' :: rest := by
  rintro rfl
  exact (h '/' rfl).2 rfl

/-- A gap that starts a longer gap leaves a gap. -/
theorem Gap.peel {before gap x y : List Char} (hbefore : Gap before) (hgap : Gap gap)
    (hy : GapFree y) (h : before ++ x = gap ++ y) : ∃ left, Gap left ∧ x = left ++ y := by
  -- the gaps start alike, so each piece of the first is the next piece of the second
  induction hbefore generalizing gap with
  | nil => exact ⟨gap, hgap, h⟩
  | @space c before hc hbefore ih =>
    cases hgap with
    | nil =>
      have hfree := hy c (by rw [← show c :: (before ++ x) = y from h]; rfl)
      rw [hc] at hfree
      exact absurd hfree.1 (by decide)
    | space _ hgap =>
      rcases List.cons.inj h with ⟨rfl, htail⟩
      exact ih hgap htail
    | line _ _ | block _ _ =>
      rcases List.cons.inj h with ⟨rfl, -⟩
      exact absurd hc (by decide)
  | @line body before hbody hbefore ih =>
    cases hgap with
    | nil => exact absurd h.symm hy.ne_slash_cons
    | space hc _ =>
      rcases List.cons.inj h with ⟨rfl, -⟩
      exact absurd hc (by decide)
    | @line other gap hother hgap =>
      have hbodies : body ++ '\n' :: (before ++ x) = other ++ '\n' :: (gap ++ y) := by
        simpa using h
      rcases lineBody_unique hbody hother hbodies with ⟨rfl, htail⟩
      exact ih hgap htail
    | block _ _ => exact absurd (List.cons.inj (List.cons.inj h).2).1 (by decide)
  | @block body before hbody hbefore ih =>
    cases hgap with
    | nil => exact absurd h.symm hy.ne_slash_cons
    | space hc _ =>
      rcases List.cons.inj h with ⟨rfl, -⟩
      exact absurd hc (by decide)
    | line _ _ => exact absurd (List.cons.inj (List.cons.inj h).2).1 (by decide)
    | @block other gap hother hgap =>
      have hbodies : body ++ '*' :: '/' :: (before ++ x) = other ++ '*' :: '/' :: (gap ++ y) := by
        simpa using h
      rcases blockBody_unique hbody hother hbodies with ⟨rfl, htail⟩
      exact ih hgap htail

/-- A gap in front of a text without one is empty. -/
theorem Gap.eq_nil {gap y : List Char} (hgap : Gap gap) (hfree : GapFree (gap ++ y)) :
    gap = [] := by
  cases hgap with
  | nil => rfl
  | space hc _ =>
    have := (hfree _ rfl).1
    rw [hc] at this
    exact absurd this (by decide)
  | line _ _ | block _ _ => exact absurd rfl (hfree _ rfl).2

/-- Gaps can be put together. -/
theorem Gap.append {x y : List Char} (hx : Gap x) (hy : Gap y) : Gap (x ++ y) := by
  induction hx with
  | nil => exact hy
  | space hc _ ih => exact .space hc ih
  | line hbody _ ih => simpa using Gap.line hbody ih
  | block hbody _ ih => simpa using Gap.block hbody ih

theorem Blank.append {x y : List Char} (hx : Blank x) (hy : Blank y) : Blank (x ++ y) := by
  intro c hc
  exact (List.mem_append.1 hc).elim (hx c) (hy c)

/-- White space is a gap without comments. -/
theorem Blank.gap {text : List Char} (h : Blank text) : Gap text := by
  induction text with
  | nil => exact .nil
  | cons c rest ih =>
    exact .space (h c (by simp)) (ih fun d hd => h d (by simp [hd]))

/-! ## Tokens in a row -/

variable {gap : List Char → Prop}

/-- Tokens are spelled one after the other. -/
theorem spells_append {tokens others : List Token} {text rest : List Char} :
    Spells gap (tokens ++ others) text rest ↔
      ∃ middle, Spells gap tokens text middle ∧ Spells gap others middle rest := by
  induction tokens generalizing text with
  | nil => exact ⟨fun h => ⟨text, rfl, h⟩, fun ⟨_, hmiddle, h⟩ => hmiddle ▸ h⟩
  | cons token tokens ih =>
    constructor
    · rintro ⟨before, behind, htext, hbefore, hends, h⟩
      rcases ih.1 h with ⟨middle, htokens, hothers⟩
      exact ⟨middle, ⟨before, behind, htext, hbefore, hends, htokens⟩, hothers⟩
    · rintro ⟨middle, ⟨before, behind, htext, hbefore, hends, htokens⟩, hothers⟩
      exact ⟨before, behind, htext, hbefore, hends, ih.2 ⟨middle, htokens, hothers⟩⟩

/-- Strict text is relaxed text. -/
theorem Spells.relaxed {tokens : List Token} {text rest : List Char}
    (h : Spells Blank tokens text rest) : Spells Gap tokens text rest := by
  induction tokens generalizing text with
  | nil => exact h
  | cons token tokens ih =>
    rcases h with ⟨before, behind, htext, hbefore, hends, h⟩
    exact ⟨before, behind, htext, hbefore.gap, hends, ih h⟩

/-- Tokens found at the front of a text are the first of all its tokens. -/
theorem Spells.prefix_unique {tokens others : List Token} {text rest last : List Char}
    (h : Spells Gap tokens text rest) (hothers : Spells Gap others text last)
    (hlast : LastGap last) :
    ∃ more, others = tokens ++ more ∧ Spells Gap more rest last := by
  induction tokens generalizing others text with
  | nil => exact ⟨others, rfl, h ▸ hothers⟩
  | cons token tokens ih =>
    rcases h with ⟨before, behind, htext, hbefore, hends, h⟩
    cases others with
    | nil =>
      -- the text would end in a gap, but it holds a token
      have htextLast : text = last := hothers
      subst htextLast
      have hline : before ++ (token.text ++ (behind ++ ['\n'])) = (text ++ ['\n']) ++ [] := by
        simp [htext]
      rcases hbefore.peel hlast (by simp [GapFree]) hline with ⟨left, hleft, hx⟩
      have hnil : left = [] := by
        refine hleft.eq_nil (y := []) ?_
        rw [← hx]
        exact token.gapFree _
      simp [hnil, token.text_ne_nil] at hx
    | cons other others =>
      rcases hothers with ⟨before', behind', htext', hbefore', hends', hothers⟩
      rw [htext] at htext'
      rcases hbefore.peel hbefore' (other.gapFree behind') htext' with ⟨left, hleft, hx⟩
      -- both tokens stand directly behind their gaps, so the gaps are the same
      have hnil : left = [] := hleft.eq_nil (hx ▸ token.gapFree behind)
      rw [hnil, List.nil_append] at hx
      rcases Token.unique hx hends hends' with ⟨rfl, rfl⟩
      rcases ih h hothers with ⟨more, rfl, hmore⟩
      exact ⟨more, rfl, hmore⟩

/-- A text goes on having its tokens behind characters that make every gap a longer one. -/
theorem Writes.prepend {last : List Char → Prop} {before : List Char}
    (hgap : ∀ x, gap x → gap (before ++ x)) (hlast : ∀ x, last x → last (before ++ x))
    {tokens : List Token} {text : List Char} (h : Writes gap last tokens text) :
    Writes gap last tokens (before ++ text) := by
  rcases h with ⟨rest, hspells, hrest⟩
  cases tokens with
  | nil =>
    have htext : text = rest := hspells
    exact ⟨before ++ rest, by rw [htext]; rfl, hlast rest hrest⟩
  | cons token tokens =>
    rcases hspells with ⟨x, behind, rfl, hx, hends, hspells⟩
    exact ⟨rest, ⟨before ++ x, behind, by simp, hgap x hx, hends, hspells⟩, hrest⟩

/-- Strict text is relaxed text without comments. -/
theorem Writes.relaxed {tokens : List Token} {text : List Char}
    (h : Writes Blank Blank tokens text) : Writes Gap LastGap tokens text := by
  rcases h with ⟨rest, hspells, hrest⟩
  exact ⟨rest, hspells.relaxed, hrest.gap.append (.space rfl .nil)⟩

/-- A text has at most one list of tokens. -/
theorem Writes.unique {tokens others : List Token} {text : List Char}
    (h : Writes Gap LastGap tokens text) (hothers : Writes Gap LastGap others text) :
    tokens = others := by
  rcases h with ⟨rest, hspells, hrest⟩
  rcases hothers with ⟨rest', hspells', hrest'⟩
  rcases hspells.prefix_unique hspells' hrest' with ⟨more, hmore, -⟩
  rcases hspells'.prefix_unique hspells hrest with ⟨more', hmore', -⟩
  -- each list starts with the other, so they have one length
  have hlength := congrArg List.length hmore
  have hlength' := congrArg List.length hmore'
  simp only [List.length_append] at hlength hlength'
  have hnil : more = [] := List.length_eq_zero_iff.1 (by omega)
  rw [hmore, hnil, List.append_nil]

end XrManifest.Json
