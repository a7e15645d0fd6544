import XrManifest.Proofs.Json.Stripping
import XrManifest.Proofs.Json.Grammar

/-!
# The relaxed syntax

A relaxed rendering of a strict text has the same tokens, with comments between them
and with a comma more in front of some closing brackets. The main statement is
`read_toStrict_iff`: the texts that are read after they were made strict are the
relaxed renderings of strict texts, and they are read as the same value.
-/

namespace XrManifest.Json.Relaxed

/-! ## Trailing commas -/

/-- The second list is the first with at most one comma more in front of each closing
bracket. A bracket directly behind an opening one closes an array or an object without
elements, and gets no comma. -/
inductive WithTrailingCommas : List Token → List Token → Prop where
  | nil : WithTrailingCommas [] []
  | keep (a : Token) {tokens relaxed : List Token} :
      WithTrailingCommas tokens relaxed → WithTrailingCommas (a :: tokens) (a :: relaxed)
  | comma (a b : Token) {tokens relaxed : List Token} :
      a.opens = false → b.closes = true → WithTrailingCommas (b :: tokens) (b :: relaxed) →
        WithTrailingCommas (a :: b :: tokens) (a :: .mark .comma :: b :: relaxed)

/-- `text` is a relaxed rendering of the strict text `strict`. -/
def Renders (strict text : List Char) : Prop :=
  ∃ tokens relaxed, Writes Blank Blank tokens strict ∧ WithTrailingCommas tokens relaxed ∧
    Writes Gap LastGap relaxed text

/-- No comma is added in front of all tokens. -/
theorem WithTrailingCommas.head? {tokens relaxed : List Token}
    (h : WithTrailingCommas tokens relaxed) : relaxed.head? = tokens.head? := by
  cases h <;> rfl

/-- Dropping trailing commas undoes nothing but additions of them. -/
theorem withTrailingCommas_dropTrailing (a : Token) (tokens : List Token) :
    WithTrailingCommas (a :: dropTrailing a.endsValue tokens) (a :: tokens) := by
  -- a comma goes together with the bracket behind it, so the induction is on the length
  induction hn : tokens.length using Nat.strongRecOn generalizing a tokens with
  | ind n ih =>
  cases tokens with
  | nil => exact .keep a .nil
  | cons b tokens =>
    by_cases hdrop : b = .mark .comma ∧ (a.endsValue && tokens.head?.any Token.closes) = true
    · rw [dropTrailing, if_pos hdrop]
      obtain ⟨rfl, hflags⟩ := hdrop
      obtain ⟨hends, hcloses⟩ := Bool.and_eq_true_iff.1 hflags
      cases tokens with
      | nil => exact absurd hcloses (by simp)
      | cons c tokens =>
        have hc : c.closes = true := by simpa using hcloses
        have hkept : dropTrailing false (c :: tokens) = c :: dropTrailing c.endsValue tokens := by
          rw [dropTrailing, if_neg]
          exact fun h => Token.ne_comma_of_closes hc h.1
        rw [hkept]
        have hlength : tokens.length < n := by
          rw [← hn, List.length_cons, List.length_cons]
          omega
        exact .comma a c (Token.opens_of_endsValue hends) hc (ih tokens.length hlength c tokens rfl)
    · rw [dropTrailing, if_neg hdrop]
      have hlength : tokens.length < n := by
        rw [← hn, List.length_cons]
        omega
      exact .keep a (ih tokens.length hlength b tokens rfl)

/-- Where every token admits the next, dropping trailing commas gives back the tokens
that they were added to. -/
theorem WithTrailingCommas.dropTrailing_eq {tokens relaxed : List Token}
    (h : WithTrailingCommas tokens relaxed)
    (hchain : tokens.IsChain fun a b => a.admits b = true) (afterValue : Bool) :
    dropTrailing afterValue relaxed = tokens := by
  induction h generalizing afterValue with
  | nil => rfl
  | @keep a tokens relaxed h ih =>
    obtain ⟨hnext, htail⟩ := List.isChain_cons.1 hchain
    rw [dropTrailing, if_neg, ih htail]
    -- a comma of strict text is not in front of a closing bracket
    rintro ⟨rfl, hflags⟩
    rw [h.head?] at hflags
    cases tokens with
    | nil => simp at hflags
    | cons b tokens =>
      have hcloses : b.closes = true := by
        have hany := (Bool.and_eq_true_iff.1 hflags).2
        simpa using hany
      have hends := Token.endsValue_of_admits (hnext b (by simp)) hcloses rfl
      simp [Token.endsValue] at hends
  | @comma a b tokens relaxed hopens hcloses h ih =>
    obtain ⟨hnext, htail⟩ := List.isChain_cons.1 hchain
    have hends := Token.endsValue_of_admits (hnext b (by simp)) hcloses hopens
    have hkept : ¬ (a = .mark .comma ∧ (afterValue &&
        (Token.mark .comma :: b :: relaxed).head?.any Token.closes) = true) := by
      rintro ⟨rfl, -⟩
      simp [Token.endsValue] at hends
    rw [dropTrailing, if_neg hkept, dropTrailing, if_pos ⟨rfl, by simp [hends, hcloses]⟩,
      ih htail]

/-- What may follow what in relaxed text: in addition a closing bracket may follow a
comma. -/
theorem WithTrailingCommas.isChain {tokens relaxed : List Token}
    (h : WithTrailingCommas tokens relaxed)
    (hchain : tokens.IsChain fun a b => a.admits b = true) :
    relaxed.IsChain fun a b => a.admits b = true ∨ (a = .mark .comma ∧ b.closes = true) := by
  induction h with
  | nil => exact .nil
  | @keep a tokens relaxed h ih =>
    obtain ⟨hnext, htail⟩ := List.isChain_cons.1 hchain
    refine List.isChain_cons.2 ⟨fun b hb => .inl (hnext b ?_), ih htail⟩
    rwa [← h.head?]
  -- the comma is put between the end of a value and a closing bracket
  | @comma a b tokens relaxed hopens hcloses h ih =>
    obtain ⟨hnext, htail⟩ := List.isChain_cons.1 hchain
    have hends := Token.endsValue_of_admits (hnext b (by simp)) hcloses hopens
    refine List.isChain_cons.2
      ⟨fun c hc => .inl ?_, List.isChain_cons.2 ⟨fun c hc => .inr ?_, ih htail⟩⟩
    · have hcomma : .mark .comma = c := by simpa using hc
      rw [← hcomma, Token.admits_comma, hends]
    · have hb : b = c := by simpa using hc
      exact ⟨rfl, hb ▸ hcloses⟩

/-! ## What is read -/

/-- A text that is read was made strict from tokens, which stay but for the trailing
commas among them. -/
theorem tokens_of_readText {text : List Char} {document : Json}
    (h : readText (strictChars text) = .ok document) :
    ∃ tokens relaxed, Writes Blank Blank tokens (strictChars text) ∧ Phrase tokens ∧
      WithTrailingCommas tokens relaxed ∧ Writes Gap LastGap relaxed text := by
  obtain ⟨tokens, hwrites, hnested, -⟩ := readText_tokens h
  obtain ⟨relaxed, hrelaxed⟩ := writes_of_stripped hwrites
  have hstrict : Writes Blank Blank (dropTrailing false relaxed) (strictChars text) :=
    stripped_writes hrelaxed false
  -- both are the tokens of the strict text
  have hsame : tokens = dropTrailing false relaxed := hwrites.relaxed.unique hstrict.relaxed
  refine ⟨tokens, relaxed, hwrites, hnested.toPhrase, ?_, hrelaxed⟩
  rw [hsame]
  cases relaxed with
  | nil => exact .nil
  | cons a relaxed =>
    have hkept : dropTrailing false (a :: relaxed) = a :: dropTrailing a.endsValue relaxed := by
      simp [dropTrailing]
    rw [hkept]
    exact withTrailingCommas_dropTrailing a relaxed

/-- A relaxed rendering of a text that is read becomes strict text that is read alike. -/
theorem readText_of_renders {strict text : List Char} {document : Json}
    (h : readText strict = .ok document) (hrenders : Renders strict text) :
    readText (strictChars text) = .ok document := by
  obtain ⟨tokens, relaxed, hstrict, hcommas, hrelaxed⟩ := hrenders
  obtain ⟨tokens', hwrites, hphrase, hread⟩ := readText_tokens h
  -- the tokens that are read are those that are rendered
  have hsame : tokens' = tokens := hwrites.relaxed.unique hstrict.relaxed
  have hstripped : Writes Blank Blank (dropTrailing false relaxed) (strictChars text) :=
    stripped_writes hrelaxed false
  rw [hcommas.dropTrailing_eq (hsame ▸ hphrase.chain), ← hsame] at hstripped
  exact hread _ hstripped

/-! ## Strict texts -/

/-- White space stays. -/
theorem stripped_blank {blank : List Char} (h : Blank blank) (afterValue : Bool)
    (rest : List Char) :
    stripped afterValue (blank ++ rest) = blank ++ stripped afterValue rest := by
  induction blank with
  | nil => rfl
  | cons c blank ih =>
    have hc : Json.isSpace c = true := h c List.mem_cons_self
    have hcomma : c ≠ ',' := by
      rintro rfl
      rw [comma_not_isSpace] at hc
      cases hc
    have htail := ih fun d hd => h d (List.mem_cons_of_mem c hd)
    rw [stripped] at htail ⊢
    rw [List.cons_append, marked_space hc, blanked]
    simp only [if_neg hcomma, if_pos (relaxed_isSpace hc), htail]
    rfl

/-- Where no comma stands in front of a closing bracket, all tokens stay where they are. -/
theorem stripped_spells {tokens : List Token} {text rest : List Char}
    (hchain : tokens.IsChain fun a b => a.admits b = true) (h : Spells Blank tokens text rest)
    (hrest : Blank rest) (afterValue : Bool) : stripped afterValue text = text := by
  induction tokens generalizing text afterValue with
  | nil =>
    have htext : text = rest := h
    have hblank := stripped_blank hrest afterValue []
    rw [List.append_nil] at hblank
    rw [htext, hblank]
    exact List.append_nil rest
  | cons token tokens ih =>
    obtain ⟨before, behind, rfl, hbefore, -, hspells⟩ := h
    obtain ⟨hnext, htail⟩ := List.isChain_cons.1 hchain
    rw [stripped_blank hbefore]
    by_cases hcomma : token = .mark .comma
    · -- a value is due behind the comma
      subst hcomma
      have hcloser : closerFollows (marked .code behind) = false := by
        rw [closerFollows_spells hspells.relaxed (hrest.gap.append (.space rfl .nil))]
        cases hhead : tokens.head? with
        | none => rfl
        | some next =>
          have hadmits := hnext next hhead
          cases hcloses : next.closes with
          | false => simpa using hcloses
          | true =>
            simp [Token.admits, Token.startsValue_of_closes hcloses, Token.endsValue,
              Token.opens] at hadmits
      have hkept : stripped afterValue ((Token.mark .comma).text ++ behind) =
          (Token.mark .comma).text ++ stripped false behind := by
        simp [Token.text, Mark.char, stripped_comma, hcloser]
      rw [hkept, ih htail hspells]
    · rw [stripped_token hcomma, ih htail hspells]

/-- A text that is read stays as it is when it is made strict. -/
theorem strictChars_of_readText {text : List Char} {document : Json}
    (h : readText text = .ok document) : strictChars text = text := by
  obtain ⟨tokens, ⟨rest, hspells, hrest⟩, hphrase, -⟩ := readText_tokens h
  exact stripped_spells hphrase.chain hspells hrest false

/-! ## What is refused -/

/-- A block comment starts between two tokens and nothing ends it. -/
def HasUnclosedComment (text : List Char) : Prop :=
  ∃ tokens gap rest, Spells Gap tokens text (gap ++ '/' :: '*' :: rest) ∧ Gap gap ∧
    ¬ ['*', '/'] <:+: rest

/-- A comma does not stand behind the end of a value. -/
def HasStrayComma (text : List Char) : Prop :=
  ∃ tokens rest, Spells Gap (tokens ++ [.mark .comma]) text rest ∧
    ∀ a ∈ tokens.getLast?, a.endsValue = false

/-- Two words stand next to each other with a gap between them, as the halves of a word
that a comment splits. -/
def HasSplitWord (text : List Char) : Prop :=
  ∃ tokens rest first second hfirst hsecond,
    Spells Gap (tokens ++ [.word first hfirst, .word second hsecond]) text rest

/-- A gap that starts like a block comment holds its end. -/
theorem blockEnd_of_gap {gap rest y : List Char} (hgap : Gap gap) (hy : GapFree y)
    (h : '/' :: '*' :: rest = gap ++ y) : ['*', '/'] <:+: rest := by
  cases hgap with
  | nil =>
    have hslash := (hy '/' (by rw [show y = [] ++ y from rfl, ← h]; rfl)).2
    exact absurd rfl hslash
  | space hc _ =>
    obtain ⟨rfl, -⟩ := List.cons.inj h
    exact absurd hc (by decide)
  | line _ _ => exact absurd (List.cons.inj (List.cons.inj h).2).1 (by decide)
  | @block body before _ _ =>
    have hrest : rest = body ++ ['*', '/'] ++ (before ++ y) := by simpa using h
    exact ⟨body, before ++ y, hrest.symm⟩

/-- In a text that is written with gaps every block comment is ended. -/
theorem not_unclosedComment {tokens : List Token} {text : List Char}
    (h : Writes Gap LastGap tokens text) : ¬ HasUnclosedComment text := by
  rintro ⟨front, gap, rest, hfront, hgap, hopen⟩
  obtain ⟨last, hspells, hlast⟩ := h
  obtain ⟨more, -, hmore⟩ := hfront.prefix_unique hspells hlast
  cases more with
  | nil =>
    -- the comment would start in the gap at the end, where a line break is added
    have hsame : gap ++ '/' :: '*' :: rest = last := hmore
    have hline : gap ++ ('/' :: '*' :: (rest ++ ['\n'])) = (last ++ ['\n']) ++ [] := by
      simp [← hsame]
    obtain ⟨left, hleft, hx⟩ := hgap.peel hlast (by simp [GapFree]) hline
    have hinfix := blockEnd_of_gap hleft (by simp [GapFree]) hx
    rcases List.infix_concat_iff.1 hinfix with hsuffix | hinfix
    · obtain ⟨front, hfront⟩ := hsuffix
      have hsplit : (front ++ ['*']) ++ ['/'] = rest ++ ['\n'] := by simpa using hfront
      exact absurd (List.append_inj' hsplit rfl).2 (by decide)
    · exact hopen hinfix
  | cons token more =>
    -- it would start in the gap in front of a token
    obtain ⟨before, behind, htext, hbefore, -, -⟩ := hmore
    obtain ⟨left, hleft, hx⟩ := hgap.peel hbefore (token.gapFree behind) htext
    exact hopen (blockEnd_of_gap hleft (token.gapFree behind) hx)

/-- In a rendering every comma is behind a value. -/
theorem not_strayComma {tokens relaxed : List Token} {text : List Char} (hphrase : Phrase tokens)
    (hcommas : WithTrailingCommas tokens relaxed) (h : Writes Gap LastGap relaxed text) :
    ¬ HasStrayComma text := by
  rintro ⟨front, rest, hfront, hlast⟩
  obtain ⟨last, hspells, hgap⟩ := h
  obtain ⟨more, hmore, -⟩ := hfront.prefix_unique hspells hgap
  have hchain := hcommas.isChain hphrase.chain
  rw [hmore, List.append_assoc] at hchain
  obtain ⟨-, -, hnext⟩ := List.isChain_append.1 hchain
  rcases List.eq_nil_or_concat front with rfl | ⟨init, a, rfl⟩
  · -- the comma would be the first token
    obtain ⟨a, ha, hstarts⟩ := hphrase.starts
    rw [← hcommas.head?, hmore] at ha
    have hcomma : .mark .comma = a := by simpa using ha
    rw [← hcomma] at hstarts
    exact absurd hstarts (by decide)
  · have ha : a ∈ (init ++ [a]).getLast? := by simp
    rw [List.concat_eq_append] at hnext hlast
    rcases hnext a ha (.mark .comma) (by simp) with hadmits | ⟨-, hcloses⟩
    · rw [Token.admits_comma, hlast a ha] at hadmits
      exact absurd hadmits (by decide)
    · exact absurd hcloses (by decide)

/-- In a rendering no words stand next to each other. -/
theorem not_splitWord {tokens relaxed : List Token} {text : List Char} (hphrase : Phrase tokens)
    (hcommas : WithTrailingCommas tokens relaxed) (h : Writes Gap LastGap relaxed text) :
    ¬ HasSplitWord text := by
  rintro ⟨front, rest, first, second, hfirst, hsecond, hfront⟩
  obtain ⟨last, hspells, hgap⟩ := h
  obtain ⟨more, hmore, -⟩ := hfront.prefix_unique hspells hgap
  have hchain := hcommas.isChain hphrase.chain
  rw [hmore, List.append_assoc] at hchain
  obtain ⟨-, hwords, -⟩ := List.isChain_append.1 hchain
  rcases (List.isChain_cons.1 hwords).1 (.word second hsecond) (by simp) with hadmits | ⟨hcomma, -⟩
  · simp [Token.admits, Token.startsValue, Token.endsValue] at hadmits
  · cases hcomma

/-! ## The relaxed syntax -/

theorem read_eq_ok {text : String} {document : Json} :
    Json.read text = .ok document ↔ readText text.toList = .ok document :=
  mapError_eq_ok

/-- The strict text is read as its characters are. -/
theorem read_toStrict_eq_ok {text : String} {document : Json} :
    Json.read (toStrict text) = .ok document ↔
      readText (strictChars text.toList) = .ok document := by
  rw [read_eq_ok, toStrict, String.toList_ofList]

/-- Relaxed text is accepted exactly: once made strict, a text is read as a document when
it is a relaxed rendering of a strict text that is read as this document. A text in which
a block comment does not end, a comma has no value in front of it, or a word is split is
read as no document. -/
theorem read_toStrict_iff :
    (∀ (text : String) (document : Json), Json.read (toStrict text) = .ok document ↔
      ∃ strict : String, Json.read strict = .ok document ∧
        Renders strict.toList text.toList) ∧
    ∀ text : String,
      HasUnclosedComment text.toList ∨ HasStrayComma text.toList ∨ HasSplitWord text.toList →
        ∀ document, Json.read (toStrict text) ≠ .ok document := by
  constructor
  · intro text document
    constructor
    · intro h
      have hread : readText (strictChars text.toList) = .ok document := read_toStrict_eq_ok.1 h
      obtain ⟨tokens, relaxed, hstrict, -, hcommas, hrelaxed⟩ := tokens_of_readText hread
      refine ⟨toStrict text, h, tokens, relaxed, ?_, hcommas, hrelaxed⟩
      rw [toStrict, String.toList_ofList]
      exact hstrict
    · rintro ⟨strict, hread, hrenders⟩
      exact read_toStrict_eq_ok.2 (readText_of_renders (read_eq_ok.1 hread) hrenders)
  · intro text hfault document h
    have hread : readText (strictChars text.toList) = .ok document := read_toStrict_eq_ok.1 h
    obtain ⟨tokens, relaxed, -, hphrase, hcommas, hrelaxed⟩ := tokens_of_readText hread
    rcases hfault with hcomment | hcomma | hword
    · exact not_unclosedComment hrelaxed hcomment
    · exact not_strayComma hphrase hcommas hrelaxed hcomma
    · exact not_splitWord hphrase hcommas hrelaxed hword

/-- `[1,//` and `]` on the next line are read like `[1]`; `[1,,]` is not read. -/
theorem read_toStrict_one_element :
    Json.read (toStrict "[1,//\n]") = .ok (.array [.number (.integer 1)]) ∧
      HasStrayComma "[1,,]".toList ∧ ∀ document, Json.read (toStrict "[1,,]") ≠ .ok document := by
  have hone : IsWord ['1'] := ⟨by simp, List.all_eq_true.1 rfl⟩
  have hrenders : Renders "[1]".toList "[1,//\n]".toList := by
    refine ⟨[.mark .arrayOpen, .word ['1'] hone, .mark .arrayClose],
      [.mark .arrayOpen, .word ['1'] hone, .mark .comma, .mark .arrayClose], ?_, ?_, ?_⟩
    · refine ⟨[], ⟨[], ['1', ']'], rfl, by simp [Blank], trivial, ?_⟩, by simp [Blank]⟩
      refine ⟨[], [']'], rfl, by simp [Blank], ?_, ?_⟩
      · simp [Token.EndsAt, AtBoundary, Stops, isWordChar, Char.isAlphanum]
      · exact ⟨[], [], rfl, by simp [Blank], trivial, rfl⟩
    · exact .keep _ (.comma _ _ rfl rfl (.keep _ .nil))
    · refine ⟨[], ⟨[], ['1', ',', '/', '/', '\n', ']'], rfl, .nil, trivial, ?_⟩, .space rfl .nil⟩
      refine ⟨[], [',', '/', '/', '\n', ']'], rfl, .nil, ?_, ?_⟩
      · simp [Token.EndsAt, AtBoundary, Stops, isWordChar, Char.isAlphanum]
      · refine ⟨[], ['/', '/', '\n', ']'], rfl, .nil, trivial, ?_⟩
        exact ⟨['/', '/', '\n'], [], rfl, @Gap.line [] [] (by simp) .nil, trivial, rfl⟩
  have hstray : HasStrayComma "[1,,]".toList := by
    refine ⟨[.mark .arrayOpen, .word ['1'] hone, .mark .comma], [']'], ?_, ?_⟩
    · refine ⟨[], ['1', ',', ',', ']'], rfl, .nil, trivial, ?_⟩
      refine ⟨[], [',', ',', ']'], rfl, .nil, ?_, ?_⟩
      · simp [Token.EndsAt, AtBoundary, Stops, isWordChar, Char.isAlphanum]
      · refine ⟨[], [',', ']'], rfl, .nil, trivial, ?_⟩
        exact ⟨[], [']'], rfl, .nil, trivial, rfl⟩
    · intro a ha
      have hcomma : .mark .comma = a := by simpa using ha
      rw [← hcomma]
      rfl
  exact ⟨(read_toStrict_iff.1 _ _).2 ⟨"[1]", rfl, hrenders⟩, hstray,
    read_toStrict_iff.2 _ (.inr (.inl hstray))⟩

end XrManifest.Json.Relaxed
