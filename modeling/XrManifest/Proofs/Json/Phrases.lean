import Mathlib.Data.List.Chain
import Mathlib.Data.List.TakeWhile
import XrManifest.Proofs.Json.Scalars

/-!
# The tokens of a value

The tokens of a value form a `Phrase`, which says what may follow what: brackets and
commas build longer phrases from shorter ones (`Phrase.opened`, `Phrase.join`,
`Phrase.closed`). The reader skips white space in front of each token, and so does
`Spells Blank`: it can be stated from token to token (`spells_cons`).
-/

namespace XrManifest.Json

/-! ## Which tokens follow each other -/

namespace Token

/-- Whether a value can start with a token. -/
def startsValue : Token → Bool
  | mark .arrayOpen | mark .objectOpen | quoted _ _ | word _ _ => true
  | mark _ => false

/-- Whether a value can end with a token. -/
def endsValue : Token → Bool
  | mark .arrayClose | mark .objectClose | quoted _ _ | word _ _ => true
  | mark _ => false

def opens : Token → Bool
  | mark .arrayOpen | mark .objectOpen => true
  | _ => false

def closes : Token → Bool
  | mark .arrayClose | mark .objectClose => true
  | _ => false

/-- Whether `b` can come directly behind `a` in strict text: no value follows a value,
everything else follows one, and a closing bracket can also follow an opening one. -/
def admits (a b : Token) : Bool :=
  if b.startsValue then !a.endsValue else a.endsValue || (a.opens && b.closes)

/-- Behind a value anything may come but a value. -/
theorem admits_of_endsValue {a b : Token} (ha : a.endsValue = true)
    (hb : b.startsValue = false) : a.admits b = true := by
  simp [admits, ha, hb]

theorem admits_of_startsValue {a b : Token} (ha : a.endsValue = false)
    (hb : b.startsValue = true) : a.admits b = true := by
  simp [admits, ha, hb]

/-- No value ends with an opening bracket. -/
theorem opens_of_endsValue {a : Token} (h : a.endsValue = true) : a.opens = false := by
  cases a with
  | mark m => cases m <;> simp_all [endsValue, opens]
  | quoted inside _ => rfl
  | word letters _ => rfl

/-- No value starts with a closing bracket. -/
theorem startsValue_of_closes {b : Token} (h : b.closes = true) : b.startsValue = false := by
  cases b with
  | mark m => cases m <;> simp_all [startsValue, closes]
  | quoted inside _ => simp [closes] at h
  | word letters _ => simp [closes] at h

theorem ne_comma_of_closes {b : Token} (h : b.closes = true) : b ≠ mark .comma := by
  rintro rfl
  simp [closes] at h

/-- In front of a closing bracket stands its opening one or the end of a value. -/
theorem endsValue_of_admits {a b : Token} (h : a.admits b = true) (hcloses : b.closes = true)
    (hopens : a.opens = false) : a.endsValue = true := by
  simpa [admits, startsValue_of_closes hcloses, hopens] using h

/-- A comma may come behind a value only. -/
theorem admits_comma (a : Token) : a.admits (mark .comma) = a.endsValue := by
  simp [admits, startsValue, closes]

end Token

/-- A run of tokens from the start of a value to the end of one, in which every token
admits the next. -/
structure Phrase (tokens : List Token) : Prop where
  chain : tokens.IsChain fun a b => a.admits b = true
  starts : ∃ a ∈ tokens.head?, a.startsValue = true
  ends : ∃ a ∈ tokens.getLast?, a.endsValue = true

namespace Phrase

theorem ne_nil {tokens : List Token} (h : Phrase tokens) : tokens ≠ [] := by
  rintro rfl
  rcases h.starts with ⟨a, ha, -⟩
  exact absurd ha (by simp)

/-- A token that is a value is a phrase. -/
theorem single {a : Token} (hstarts : a.startsValue = true) (hends : a.endsValue = true) :
    Phrase [a] :=
  ⟨.singleton a, ⟨a, by simp, hstarts⟩, ⟨a, by simp, hends⟩⟩

/-- A phrase goes on with tokens whose first one can follow a value. -/
theorem chain_append {tokens others : List Token} {b : Token} (htokens : Phrase tokens)
    (hothers : others.IsChain fun a b => a.admits b = true) (hb : b ∈ others.head?)
    (hstarts : b.startsValue = false) :
    (tokens ++ others).IsChain fun a b => a.admits b = true := by
  rcases htokens.ends with ⟨a, ha, hends⟩
  refine List.isChain_append.2 ⟨htokens.chain, hothers, ?_⟩
  intro c hc d hd
  rw [Option.mem_unique hc ha, Option.mem_unique hd hb]
  exact Token.admits_of_endsValue hends hstarts

/-- A phrase goes on behind a token that does not end a value. -/
theorem chain_cons {a : Token} {tokens : List Token} (hends : a.endsValue = false)
    (htokens : Phrase tokens) : (a :: tokens).IsChain fun a b => a.admits b = true := by
  rcases htokens.starts with ⟨b, hb, hstarts⟩
  refine List.isChain_cons.2 ⟨?_, htokens.chain⟩
  intro c hc
  rw [Option.mem_unique hc hb]
  exact Token.admits_of_startsValue hends hstarts

/-- Two phrases with a comma or a colon between them. -/
theorem join {tokens others : List Token} {m : Mark} (hm : m = .comma ∨ m = .colon)
    (htokens : Phrase tokens) (hothers : Phrase others) : Phrase (tokens ++ .mark m :: others) := by
  have hends : (Token.mark m).endsValue = false := by rcases hm with rfl | rfl <;> rfl
  have hstarts : (Token.mark m).startsValue = false := by rcases hm with rfl | rfl <;> rfl
  refine ⟨htokens.chain_append (chain_cons hends hothers) rfl hstarts, ?_, ?_⟩
  · rcases htokens.starts with ⟨a, ha, h⟩
    exact ⟨a, List.mem_head?_append_of_mem_head? ha, h⟩
  · rcases hothers.ends with ⟨a, ha, h⟩
    exact ⟨a, List.mem_getLast?_append_of_mem_getLast? (List.mem_getLast?_cons ha), h⟩

/-- A phrase and a closing bracket. -/
theorem closed {tokens : List Token} {m : Mark} (hm : m = .arrayClose ∨ m = .objectClose)
    (htokens : Phrase tokens) : Phrase (tokens ++ [.mark m]) := by
  have hends : (Token.mark m).endsValue = true := by rcases hm with rfl | rfl <;> rfl
  have hstarts : (Token.mark m).startsValue = false := by rcases hm with rfl | rfl <;> rfl
  refine ⟨htokens.chain_append (.singleton _) rfl hstarts, ?_, ?_⟩
  · rcases htokens.starts with ⟨a, ha, h⟩
    exact ⟨a, List.mem_head?_append_of_mem_head? ha, h⟩
  · exact ⟨.mark m, by simp, hends⟩

/-- An opening bracket and a phrase. -/
theorem opened {tokens : List Token} {m : Mark} (hm : m = .arrayOpen ∨ m = .objectOpen)
    (htokens : Phrase tokens) : Phrase (.mark m :: tokens) := by
  have hends : (Token.mark m).endsValue = false := by rcases hm with rfl | rfl <;> rfl
  have hstarts : (Token.mark m).startsValue = true := by rcases hm with rfl | rfl <;> rfl
  refine ⟨chain_cons hends htokens, ⟨.mark m, rfl, hstarts⟩, ?_⟩
  rcases htokens.ends with ⟨a, ha, h⟩
  exact ⟨a, List.mem_getLast?_cons ha, h⟩

end Phrase

/-! ## White space in front of tokens -/

theorem skipSpaces_eq_self {text : List Char} (h : GapFree text) : skipSpaces text = text := by
  cases text with
  | nil => rfl
  | cons c text => simp [skipSpaces, (h c (by simp)).1]

/-- White space in front is skipped as a whole. -/
theorem skipSpaces_append {before text : List Char} (h : Blank before) :
    skipSpaces (before ++ text) = skipSpaces text :=
  List.dropWhile_append_of_pos h

theorem skipSpaces_skipSpaces (text : List Char) :
    skipSpaces (skipSpaces text) = skipSpaces text := by
  induction text with
  | nil => rfl
  | cons c text ih =>
    by_cases hc : isSpace c = true
    · simpa [skipSpaces, hc] using ih
    · simp [skipSpaces, hc]

theorem length_skipSpaces_le (text : List Char) : (skipSpaces text).length ≤ text.length :=
  (List.dropWhile_suffix isSpace).length_le

/-- Nothing is left of white space, and of nothing else. -/
theorem skipSpaces_eq_nil {text : List Char} : skipSpaces text = [] ↔ Blank text :=
  List.dropWhile_eq_nil_iff

/-- White space does not go on with a word. -/
theorem Blank.atBoundary {text : List Char} (h : Blank text) : AtBoundary text := by
  intro c hc
  have hspace : isSpace c = true := h c (List.mem_of_mem_head? hc)
  by_contra hword
  rw [not_isSpace_of_isWordChar (by simpa using hword)] at hspace
  exact absurd hspace (by decide)

theorem blank_takeWhile (text : List Char) : Blank (text.takeWhile isSpace) :=
  fun c hc => List.all_eq_true.1 List.all_takeWhile c hc

/-- The first token stands behind the white space of a text. -/
theorem spells_cons {token : Token} {tokens : List Token} {text rest : List Char} :
    Spells Blank (token :: tokens) text rest ↔
      ∃ behind, skipSpaces text = token.text ++ behind ∧ token.EndsAt behind ∧
        Spells Blank tokens behind rest := by
  constructor
  · rintro ⟨before, behind, rfl, hbefore, hends, h⟩
    exact ⟨behind, by rw [skipSpaces_append hbefore, skipSpaces_eq_self (token.gapFree _)],
      hends, h⟩
  · rintro ⟨behind, htext, hends, h⟩
    refine ⟨text.takeWhile isSpace, behind, ?_, blank_takeWhile text, hends, h⟩
    rw [← htext]
    exact (List.takeWhile_append_dropWhile).symm

/-- White space in front does not change what is spelled. -/
theorem spells_skipSpaces {tokens : List Token} {text rest : List Char} (hne : tokens ≠ []) :
    Spells Blank tokens (skipSpaces text) rest ↔ Spells Blank tokens text rest := by
  cases tokens with
  | nil => exact absurd rfl hne
  | cons token tokens => rw [spells_cons, spells_cons, skipSpaces_skipSpaces]

/-- A mark is spelled behind white space. -/
theorem spells_mark {m : Mark} {tokens : List Token} {text rest : List Char} :
    Spells Blank (.mark m :: tokens) text rest ↔
      ∃ behind, skipSpaces text = m.char :: behind ∧ Spells Blank tokens behind rest := by
  rw [spells_cons]
  exact ⟨fun ⟨behind, htext, _, h⟩ => ⟨behind, htext, h⟩,
    fun ⟨behind, htext, h⟩ => ⟨behind, htext, trivial, h⟩⟩

/-- Tokens take at least one character each. -/
theorem Spells.length_le {tokens : List Token} {text rest : List Char}
    (h : Spells Blank tokens text rest) : rest.length + tokens.length ≤ text.length := by
  induction tokens generalizing text with
  | nil =>
    have htext : text = rest := h
    simp [htext]
  | cons token tokens ih =>
    rcases h with ⟨before, behind, rfl, -, -, h⟩
    have htoken := List.length_pos_iff.2 token.text_ne_nil
    have := ih h
    simp only [List.length_append, List.length_cons]
    omega

/-- A text that goes on with a mark behind white space does not go on with a word. -/
theorem atBoundary_of_mark {m : Mark} {text rest : List Char}
    (h : skipSpaces text = m.char :: rest) : AtBoundary text := by
  intro c hc
  cases text with
  | nil => exact absurd hc (by simp)
  | cons d text =>
    have hfirst : d = c := by simpa using hc
    subst hfirst
    -- neither a space nor a mark continues a word
    by_cases hd : isSpace d = true
    · by_contra hword
      rw [not_isSpace_of_isWordChar (by simpa using hword)] at hd
      exact absurd hd (by decide)
    · have hchar : d :: text = m.char :: rest := by simpa [skipSpaces, hd] using h
      rw [(List.cons.inj hchar).1]
      exact m.isWordChar_char

end XrManifest.Json
