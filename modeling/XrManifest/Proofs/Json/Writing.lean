import XrManifest.Json.Writing
import XrManifest.Proofs.Json.Documents

/-!
# Reading what was written

A value that is written as JSON text is read back as the same value: what `writeValue` gives
is one of the texts that write the value, one without white space. The main statement is
`readText_writeValue`.
-/

namespace XrManifest.Json

/-! ## Strings -/

namespace Quoted

theorem isHexDigit_hexDigit {n : Nat} (hn : n < 16) : IsHexDigit n (hexDigit n) := by
  have hdigits : ∀ n < 16, hexDigit n = n.digitChar := by decide
  exact ⟨hn, .inl (hdigits n hn)⟩

/-- The character below space that two hexadecimal digits write. -/
theorem isHexQuad_control {code : Nat} (hcode : code < 0x20) :
    IsHexQuad code ['0', '0', hexDigit (code / 16), hexDigit (code % 16)] := by
  have hzero : hexDigit 0 = '0' := rfl
  have hfirst : code / 0x1000 = 0 := by omega
  have hsecond : code / 0x100 % 0x10 = 0 := by omega
  have hthird : code / 0x10 % 0x10 = code / 16 := by omega
  rw [IsHexQuad, hfirst, hsecond, hthird, ← hzero]
  exact .cons (isHexDigit_hexDigit (by omega)) (.cons (isHexDigit_hexDigit (by omega))
    (.cons (isHexDigit_hexDigit (by omega)) (.cons (isHexDigit_hexDigit (by omega)) .nil)))

/-- However a character is written, it can be read so. -/
theorem writesChar_writeChar (c : Char) : WritesChar c (writeChar c) := by
  -- seven characters have a short escape
  have hshort : ∀ {d letter : Char}, (letter, d) ∈ shortEscapes → c = d →
      WritesChar c ['\\', letter] := by
    rintro d letter hletter rfl
    exact .short hletter
  unfold writeChar
  split_ifs with hquote hslash hback htab hbreak hform hreturn hcontrol
  · exact hshort (by decide) hquote
  · exact hshort (by decide) hslash
  · exact hshort (by decide) hback
  · exact hshort (by decide) htab
  · exact hshort (by decide) hbreak
  · exact hshort (by decide) hform
  · exact hshort (by decide) hreturn
  · exact .unit (isHexQuad_control hcontrol)
  · exact .raw hquote hslash (by omega)

theorem writesChars_flatMap (cs : List Char) : WritesChars cs (cs.flatMap writeChar) := by
  induction cs with
  | nil => exact .nil
  | cons c cs ih =>
    rw [List.flatMap_cons]
    exact .cons (writesChar_writeChar c) ih

end Quoted

/-! ## Items -/

/-- The text consists of the tokens, with no white space in front of the first. -/
theorem spells_token (token : Token) {tokens : List Token} {text rest : List Char}
    (hends : token.EndsAt text) (h : Spells Blank tokens text rest) :
    Spells Blank (token :: tokens) (token.text ++ text) rest :=
  ⟨[], text, rfl, by simp [Blank], hends, h⟩

/-- A mark in front ends any word. -/
theorem Mark.atBoundary (m : Mark) (rest : List Char) : AtBoundary (m.char :: rest) := by
  intro c hc
  have hfirst : m.char = c := by simpa using hc
  rw [← hfirst]
  exact m.isWordChar_char

section
variable {α : Type}

theorem intercalate_map_cons (write : α → List Char) (a b : α) (values : List α) :
    [','].intercalate ((a :: b :: values).map write) =
      write a ++ ',' :: [','].intercalate ((b :: values).map write) := by
  rw [List.map_cons, List.map_cons, List.intercalate_cons_cons, List.append_assoc]
  rfl

/-- Items that were written with commas between them, up to the closing bracket. -/
theorem spells_items {write : α → List Char} {tokens : α → List Token} {parts : List α}
    (h : ∀ part ∈ parts, ∀ rest, AtBoundary rest →
      Spells Blank (tokens part) (write part ++ rest) rest)
    (close : Mark) (rest : List Char) :
    Spells Blank (separated (parts.map tokens) ++ [.mark close])
      ([','].intercalate (parts.map write) ++ close.char :: rest) rest := by
  have hclose : Spells Blank [.mark close] (close.char :: rest) rest := spells_token _ trivial rfl
  induction parts with
  | nil => exact hclose
  | cons part parts ih =>
    have hpart := h part List.mem_cons_self
    -- a comma stands behind all items but the last
    cases parts with
    | nil =>
      rw [List.map_singleton, List.map_singleton, separated_singleton, List.intercalate_singleton]
      exact spells_append.2 ⟨_, hpart _ (close.atBoundary rest), hclose⟩
    | cons next parts =>
      have hmore := ih fun other hother => h other (List.mem_cons_of_mem part hother)
      rw [intercalate_map_cons, List.map_cons, List.map_cons, separated_cons_cons,
        List.append_assoc, List.append_assoc]
      exact spells_append.2 ⟨_, hpart _ (Mark.comma.atBoundary _), spells_token _ trivial hmore⟩

end

/-! ## Values -/

def writeEntry (entry : String × Json) : List Char :=
  Quoted.write entry.1 ++ ':' :: writeValue entry.2

/-- The texts of elements have commas between them. -/
theorem writeElements_eq (elements : List Json) :
    writeElements elements = [','].intercalate (elements.map writeValue) := by
  induction elements with
  | nil => rfl
  | cons value elements ih =>
    cases elements with
    | nil => simp [writeElements, List.intercalate_singleton]
    | cons next elements =>
      rw [writeElements, ih, intercalate_map_cons]
      simp

/-- So have the texts of entries. -/
theorem writeEntries_eq (entries : List (String × Json)) :
    writeEntries entries = [','].intercalate (entries.map writeEntry) := by
  induction entries with
  | nil => rfl
  | cons entry entries ih =>
    cases entries with
    | nil => simp [writeEntries, writeEntry, List.intercalate_singleton]
    | cons next entries =>
      rw [writeEntries, ih, intercalate_map_cons]
      · simp [writeEntry]
      · simp

/-- A string that was written is one token. -/
theorem spells_quoted (s : String) {tokens : List Token} {text rest : List Char}
    (h : Spells Blank tokens text rest) :
    Spells Blank (.quoted _ (Quoted.writesChars_flatMap s.toList).enclosed :: tokens)
      (Quoted.write s ++ text) rest :=
  spells_token (.quoted _ _) trivial h

/-- A text that writes the value without white space in front of it or behind it. -/
def WritesTight (value : Json) (text : List Char) (tokens : List Token) : Prop :=
  HasTokens value tokens ∧ ∀ rest, AtBoundary rest → Spells Blank tokens (text ++ rest) rest

/-- The elements of an array are written with their tokens. -/
theorem exists_elements {elements : List Json}
    (h : ∀ e ∈ elements, ∃ tokens, WritesTight e (writeValue e) tokens) :
    ∃ parts : List Element, parts.map Element.value = elements ∧
      ∀ part ∈ parts, WritesTight part.value (writeValue part.value) part.tokens := by
  choose tokens htokens using h
  refine ⟨elements.attach.map fun e => ⟨e.1, tokens e.1 e.2⟩, by simp, ?_⟩
  intro part hpart
  obtain ⟨e, -, rfl⟩ := List.mem_map.1 hpart
  exact htokens e.1 e.2

/-- An entry that is written without white space in front of it or behind it. -/
structure Member.Tight (m : Member) : Prop where
  value : WritesTight m.value (writeValue m.value) m.tokens
  inside : m.inside = m.key.toList.flatMap Quoted.writeChar

/-- An entry is spelled where it is written. -/
theorem Member.Tight.spells {m : Member} (h : m.Tight) (rest : List Char)
    (hrest : AtBoundary rest) : Spells Blank m.entryTokens (writeEntry m.entry ++ rest) rest := by
  have hvalue := spells_token (.mark .colon) trivial (h.value.2 rest hrest)
  have hkey := spells_token (.quoted m.inside m.writes.enclosed) trivial hvalue
  have htext : writeEntry m.entry ++ rest = (Token.quoted m.inside m.writes.enclosed).text ++
      ((Token.mark .colon).text ++ (writeValue m.value ++ rest)) := by
    simp [writeEntry, Member.entry, Quoted.write, Token.text, Mark.char, h.inside]
  rw [htext]
  exact hkey

/-- The entries of an object are written with their tokens. -/
theorem exists_members {entries : List (String × Json)}
    (h : ∀ entry ∈ entries, ∃ tokens, WritesTight entry.2 (writeValue entry.2) tokens) :
    ∃ members : List Member, members.map Member.entry = entries ∧
      ∀ m ∈ members, m.Tight := by
  choose tokens htokens using h
  refine ⟨entries.attach.map fun entry =>
    ⟨entry.1.1, _, Quoted.writesChars_flatMap _, entry.1.2, tokens entry.1 entry.2⟩, ?_, ?_⟩
  · rw [List.map_map]
    exact List.attach_map_subtype_val entries
  · intro m hm
    obtain ⟨entry, -, rfl⟩ := List.mem_map.1 hm
    exact ⟨htokens entry.1 entry.2, rfl⟩

/-- The text of a value writes the value. -/
theorem writesTight_writeValue {depth : Nat} {value : Json} (h : Exact depth value) :
    ∃ tokens, WritesTight value (writeValue value) tokens := by
  have hword : ∀ {word : List Char} (isWord : IsWord word) (rest : List Char), AtBoundary rest →
      Spells Blank [.word word isWord] (word ++ rest) rest :=
    fun _ _ hrest => spells_token _ hrest rfl
  induction h with
  | null =>
    rw [writeValue]
    exact ⟨_, .null, hword isWord_null⟩
  | boolean value =>
    cases value with
    | true =>
      rw [writeValue]
      exact ⟨_, .true, hword isWord_true⟩
    | false =>
      rw [writeValue]
      exact ⟨_, .false, hword isWord_false⟩
  | @integer _ value _ _ =>
    rw [writeValue]
    exact ⟨_, .integer value, hword (isWord_toString value)⟩
  | string s =>
    rw [writeValue]
    refine ⟨_, .string (Quoted.writesChars_flatMap s.toList), fun rest _ => ?_⟩
    exact spells_quoted s rfl
  | @array depth elements _ ih =>
    rw [writeValue, writeElements_eq]
    obtain ⟨parts, rfl, hparts⟩ := exists_elements ih
    refine ⟨_, .array fun part hpart => (hparts part hpart).1, fun rest _ => ?_⟩
    have hitems := spells_items (fun part hpart => (hparts part hpart).2) .arrayClose rest
    rw [List.map_map, List.cons_append, List.cons_append, List.append_assoc]
    exact spells_token _ trivial hitems
  | @object depth entries _ ih =>
    rw [writeValue, writeEntries_eq]
    obtain ⟨members, rfl, hmembers⟩ := exists_members ih
    refine ⟨_, .object fun m hm => (hmembers m hm).value.1, fun rest _ => ?_⟩
    have hitems := spells_items (fun m hm => (hmembers m hm).spells) .objectClose rest
    rw [List.map_map, List.cons_append, List.cons_append, List.append_assoc]
    exact spells_token _ trivial hitems

/-- The text of a value is read as this value. -/
theorem readText_writeValue {value : Json} (h : Exact maxDepth value) :
    readText (writeValue value) = .ok value := by
  obtain ⟨tokens, htokens, hspells⟩ := writesTight_writeValue h
  have hwrites := hspells [] (by simp [AtBoundary, Stops])
  rw [List.append_nil] at hwrites
  exact readText_hasTokens h htokens ⟨[], hwrites, by simp [Blank]⟩

end XrManifest.Json
