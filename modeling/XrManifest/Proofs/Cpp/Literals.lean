import Mathlib.Algebra.Ring.Parity
import Mathlib.Data.List.DropRight
import XrManifest.Proofs.Cpp.Nesting

/-!
# Literals without loss

What stands between the quotes of a string literal can be turned back into the text, and the
literal ends where its last quote is, whatever is behind it. The main statement is
`stringLiteral_lossless`.
-/

namespace XrManifest.Cpp

/-! ## Undoing escapes -/

/-- The character that is meant by one behind a backslash. -/
def unescapeChar : Char → Option Char
  | '"' => some '"'
  | '\\' => some '\\'
  | 'n' => some '\n'
  | _ => none

/-- Undoes the escapes of what stands between the quotes of a literal. A quote or a line break
without a backslash cannot stand there, and neither can a backslash without one of the three
characters that are escaped. -/
def unescape : List Char → Option (List Char)
  | [] => some []
  | ['\\'] => none
  | '\\' :: c :: rest =>
    (unescapeChar c).bind fun meant => (unescape rest).map fun text => meant :: text
  | c :: rest => if c = '"' ∨ c = '\n' then none else (unescape rest).map fun text => c :: text

def escaped (text : List Char) : List Char := text.flatMap escapeChar

/-- A literal stands between two quotes. -/
theorem toList_stringLiteral (text : String) :
    (stringLiteral text).toList = '"' :: (escaped text.toList ++ ['"']) := by
  rw [stringLiteral, String.toList_ofList]
  rfl

/-- All but three characters are written as they are. -/
theorem escapeChar_of_plain {c : Char} (hquote : c ≠ '"') (hslash : c ≠ '\\') (hbreak : c ≠ '\n') :
    escapeChar c = [c] := by
  rw [escapeChar, if_neg hquote, if_neg hslash, if_neg hbreak]

/-- A character is escaped in one of three ways, or it is written as it is. -/
theorem escapeChar_cases (c : Char) :
    (∃ d, unescapeChar d = some c ∧ d ≠ '\n' ∧ escapeChar c = ['\\', d]) ∨
      c ≠ '"' ∧ c ≠ '\\' ∧ c ≠ '\n' ∧ escapeChar c = [c] := by
  by_cases hquote : c = '"'
  · exact .inl ⟨'"', by subst hquote; decide⟩
  by_cases hslash : c = '\\'
  · exact .inl ⟨'\\', by subst hslash; decide⟩
  by_cases hbreak : c = '\n'
  · exact .inl ⟨'n', by subst hbreak; decide⟩
  exact .inr ⟨hquote, hslash, hbreak, escapeChar_of_plain hquote hslash hbreak⟩

theorem unescape_cons_of_plain {c : Char} (hquote : c ≠ '"') (hslash : c ≠ '\\')
    (hbreak : c ≠ '\n') (rest : List Char) :
    unescape (c :: rest) = (unescape rest).map fun text => c :: text := by
  rw [unescape]
  · rw [if_neg (not_or.2 ⟨hquote, hbreak⟩)]
  · rintro rfl
    exact absurd rfl hslash
  · rintro _ _ rfl
    exact absurd rfl hslash

/-- Undoing the escapes of a text gives it back. -/
theorem unescape_escaped (text : List Char) : unescape (escaped text) = some text := by
  induction text with
  | nil => rfl
  | cons c text ih =>
    rw [escaped, List.flatMap_cons]
    rcases escapeChar_cases c with ⟨d, hmeant, -, hescape⟩ | ⟨hquote, hslash, hbreak, hescape⟩
    · rw [hescape, List.cons_append, List.singleton_append, unescape, hmeant, ← escaped, ih]
      rfl
    · rw [hescape, List.singleton_append, unescape_cons_of_plain hquote hslash hbreak,
        ← escaped, ih]
      rfl

/-! ## Runs of backslashes -/

/-- The number of backslashes that a text ends in. -/
def backslashRun (text : List Char) : Nat := (text.rtakeWhile (· = '\\')).length

theorem backslashRun_concat (text : List Char) (c : Char) :
    backslashRun (text ++ [c]) = if c = '\\' then backslashRun text + 1 else 0 := by
  unfold backslashRun
  split
  · rename_i hc
    rw [List.rtakeWhile_concat_pos _ _ _ (by simpa using hc), List.length_append]
    rfl
  · rename_i hc
    rw [List.rtakeWhile_concat_neg _ _ _ (by simpa using hc)]
    rfl

theorem escaped_concat (text : List Char) (c : Char) :
    escaped (text ++ [c]) = escaped text ++ escapeChar c := by
  simp [escaped]

/-- Backslashes come in pairs at the end of an escaped text, so the quote behind it is not
escaped. -/
theorem even_backslashRun (text : List Char) : Even (backslashRun (escaped text)) := by
  induction text using List.reverseRecOn with
  | nil => exact Even.zero
  | append_singleton text c ih =>
    rw [escaped_concat]
    rcases escapeChar_cases c with ⟨d, -, -, hescape⟩ | ⟨-, hslash, -, hescape⟩
    · rw [hescape, List.append_cons, backslashRun_concat, backslashRun_concat, if_pos rfl]
      split
      · exact ih.add even_two
      · exact Even.zero
    · rw [hescape, backslashRun_concat, if_neg hslash]
      exact Even.zero

/-- Where a quote comes with an escaped character, a backslash is all that is in front of it. -/
theorem eq_of_quote_in_escapeChar {c : Char} {before after : List Char}
    (h : escapeChar c = before ++ '"' :: after) : before = ['\\'] := by
  rcases escapeChar_cases c with ⟨d, -, -, hescape⟩ | ⟨hquote, -, -, hescape⟩
  · rw [hescape, List.cons_eq_append_iff] at h
    rcases h with ⟨-, hfirst⟩ | ⟨rest, rfl, hrest⟩
    · exact absurd (List.cons.inj hfirst).1 (by decide)
    · have hparts : rest = [] ∧ '"' = d ∧ after = [] := by
        simpa using List.singleton_eq_append_iff.1 hrest
      rw [hparts.1]
  · have hmem : '"' ∈ escapeChar c := h ▸ List.mem_append_right before List.mem_cons_self
    rw [hescape, List.mem_singleton] at hmem
    exact absurd hmem.symm hquote

/-- A quote in an escaped text has a backslash of its own in front of it, behind pairs of
them. -/
theorem odd_backslashRun {text before after : List Char}
    (h : escaped text = before ++ '"' :: after) : Odd (backslashRun before) := by
  induction text using List.reverseRecOn generalizing after with
  | nil => simp [escaped] at h
  | append_singleton text c ih =>
    rw [escaped_concat] at h
    rcases List.append_eq_append_iff.1 h with ⟨more, rfl, hmore⟩ | ⟨more, htext, hmore⟩
    · -- the quote comes with the last character
      rw [eq_of_quote_in_escapeChar hmore, backslashRun_concat, if_pos rfl]
      exact (even_backslashRun text).add_one
    · cases more with
      | nil =>
        have hnone : [] = ['\\'] := eq_of_quote_in_escapeChar hmore.symm
        exact absurd hnone (List.cons_ne_nil _ _).symm
      | cons d more =>
        obtain ⟨rfl, -⟩ := List.cons.inj hmore
        exact ih htext

/-! ## The end of a literal -/

/-- Reads up to the quote that ends a literal, and gives what is read with what is behind it. A
backslash takes the next character with it, and a literal ends on its line. -/
def lexInside : List Char → Option (List Char × List Char)
  | [] => none
  | '"' :: rest => some (['"'], rest)
  | '\n' :: _ => none
  | '\\' :: c :: rest =>
    if c = '\n' then none
    else (lexInside rest).map fun (token, behind) => ('\\' :: c :: token, behind)
  | c :: rest => (lexInside rest).map fun (token, behind) => (c :: token, behind)

/-- The string literal that a text starts with, and what is behind it. -/
def lexLiteral : List Char → Option (List Char × List Char)
  | '"' :: rest => (lexInside rest).map fun (token, behind) => ('"' :: token, behind)
  | _ => none

/-- A character without an escape does not end a literal. -/
theorem lexInside_cons_of_plain {c : Char} (hquote : c ≠ '"') (hslash : c ≠ '\\')
    (hbreak : c ≠ '\n') (rest : List Char) :
    lexInside (c :: rest) =
      (lexInside rest).map fun (token, behind) => (c :: token, behind) := by
  rw [lexInside]
  · exact hquote
  · exact hbreak
  · rintro _ _ rfl
    exact absurd rfl hslash

/-- The first quote that is read behind an escaped text is the one that ends it. -/
theorem lexInside_escaped (text rest : List Char) :
    lexInside (escaped text ++ '"' :: rest) = some (escaped text ++ ['"'], rest) := by
  induction text with
  | nil => rfl
  | cons c text ih =>
    rw [escaped, List.flatMap_cons, ← escaped, List.append_assoc]
    rcases escapeChar_cases c with ⟨d, -, hbreak, hescape⟩ | ⟨hquote, hslash, hbreak, hescape⟩
    · rw [hescape, List.cons_append, List.singleton_append, lexInside, if_neg hbreak, ih]
      rfl
    · rw [hescape, List.singleton_append, lexInside_cons_of_plain hquote hslash hbreak, ih]
      rfl

/-- A literal is told from whatever stands behind it. -/
theorem lexLiteral_stringLiteral (text : String) (rest : List Char) :
    lexLiteral ((stringLiteral text).toList ++ rest) =
      some ((stringLiteral text).toList, rest) := by
  rw [toList_stringLiteral, List.cons_append, List.append_assoc, List.singleton_append, lexLiteral,
    lexInside_escaped]
  rfl

/-- String literals are lossless. A literal has a quote at each end and no line break. Between
its quotes every other quote stands behind an odd number of backslashes, while the last one stands
behind an even number, and undoing the escapes there gives the text. So different texts have
different literals, and a reader that starts at the first quote stops at the last, whatever is
behind it. -/
theorem stringLiteral_lossless :
    Function.Injective stringLiteral ∧ ∀ text : String, ∃ inside : List Char,
      (stringLiteral text).toList = '"' :: (inside ++ ['"']) ∧
      '\n' ∉ (stringLiteral text).toList ∧
      (∀ before after, inside = before ++ '"' :: after → Odd (backslashRun before)) ∧
      Even (backslashRun inside) ∧
      unescape inside = some text.toList ∧
      ∀ rest, lexLiteral ((stringLiteral text).toList ++ rest) =
        some ((stringLiteral text).toList, rest) := by
  refine ⟨?_, fun text => ⟨escaped text.toList, toList_stringLiteral text, ?_, ?_, ?_, ?_, ?_⟩⟩
  -- what is between the quotes can be unescaped, so different texts differ there
  · intro first second h
    have hinside : escaped first.toList = escaped second.toList := by
      have hlists := congrArg String.toList h
      rw [toList_stringLiteral, toList_stringLiteral] at hlists
      exact List.append_cancel_right (List.cons.inj hlists).2
    have hsame := congrArg unescape hinside
    rw [unescape_escaped, unescape_escaped] at hsame
    exact String.toList_inj.1 (Option.some.inj hsame)
  · exact (balanced_stringLiteral text).unbroken
  · exact fun before after h => odd_backslashRun h
  · exact even_backslashRun text.toList
  · exact unescape_escaped text.toList
  · exact lexLiteral_stringLiteral text

/-- A backslash in front of an `n`, a line break, and a backslash in front of the last quote. -/
example : stringLiteral "\\n\n\\" = "\"\\\\n\\n\\\\\"" := by decide

end XrManifest.Cpp
