import XrManifest.Proofs.Json.Grammar
import XrManifest.Proofs.Json.WrittenScalars

/-!
# Documents and the texts that write them

`HasTokens document tokens` says which tokens write a document: a grammar of its own, which
leaves open how the characters of strings are written and, between the tokens, how much
white space stands in a text. Every text that writes a document is read as this document
(`readText_hasTokens`), unless it is nested too deep; the main statement,
`read_keepsDocument`, says where the limit lies.
-/

namespace XrManifest.Json

/-! ## Documents -/

/-- A value whose numbers are integers of 64 bits, signed or not, and whose arrays and objects
stand inside each other up to `depth` deep. -/
inductive Exact : (depth : Nat) → Json → Prop where
  | null {depth : Nat} : Exact depth .null
  | boolean {depth : Nat} (value : Bool) : Exact depth (.boolean value)
  | integer {depth : Nat} {value : Int} (low : Int64.minValue.toInt ≤ value)
      (high : value < UInt64.size) : Exact depth (.number (.integer value))
  | string {depth : Nat} (value : String) : Exact depth (.string value)
  | array {depth : Nat} {elements : List Json} (exact : ∀ e ∈ elements, Exact depth e) :
      Exact (depth + 1) (.array elements)
  | object {depth : Nat} {entries : List (String × Json)}
      (exact : ∀ entry ∈ entries, Exact depth entry.2) : Exact (depth + 1) (.object entries)

/-- An entry of an object, with the characters that write its key and the tokens of its
value. -/
structure Member where
  key : String
  inside : List Char
  writes : Quoted.WritesChars key.toList inside
  value : Json
  tokens : List Token

def Member.entry (m : Member) : String × Json := (m.key, m.value)

def Member.entryTokens (m : Member) : List Token :=
  .quoted m.inside m.writes.enclosed :: .mark .colon :: m.tokens

theorem isWord_null : IsWord ['n', 'u', 'l', 'l'] := ⟨by simp, List.all_eq_true.1 rfl⟩

theorem isWord_true : IsWord ['t', 'r', 'u', 'e'] := ⟨by simp, List.all_eq_true.1 rfl⟩

theorem isWord_false : IsWord ['f', 'a', 'l', 's', 'e'] := ⟨by simp, List.all_eq_true.1 rfl⟩

/-- The tokens write the document. An integer is written by its decimal digits, behind a
minus where it is negative. -/
inductive HasTokens : Json → List Token → Prop where
  | null : HasTokens .null [.word ['n', 'u', 'l', 'l'] isWord_null]
  | true : HasTokens (.boolean true) [.word ['t', 'r', 'u', 'e'] isWord_true]
  | false : HasTokens (.boolean false) [.word ['f', 'a', 'l', 's', 'e'] isWord_false]
  | integer (value : Int) :
      HasTokens (.number (.integer value)) [.word (toString value).toList (isWord_toString value)]
  | string {s : String} {inside : List Char} (writes : Quoted.WritesChars s.toList inside) :
      HasTokens (.string s) [.quoted inside writes.enclosed]
  | array {elements : List Element} (writes : ∀ e ∈ elements, HasTokens e.value e.tokens) :
      HasTokens (.array (elements.map Element.value))
        (.mark .arrayOpen :: (separated (elements.map Element.tokens) ++ [.mark .arrayClose]))
  | object {members : List Member} (writes : ∀ m ∈ members, HasTokens m.value m.tokens) :
      HasTokens (.object (members.map Member.entry))
        (.mark .objectOpen ::
          (separated (members.map Member.entryTokens) ++ [.mark .objectClose]))

def Member.spelling (m : Member) : Entry :=
  ⟨m.key, .quoted m.inside m.writes.enclosed, m.value, m.tokens⟩

/-- The digits of an integer are a scalar. -/
theorem scalar_integer {value : Int} (hlow : Int64.minValue.toInt ≤ value)
    (hhigh : value < UInt64.size) (hword : IsWord (toString value).toList) :
    (Token.word (toString value).toList hword).Scalar (.number (.integer value)) := by
  refine scalar_number hword (fun c hc => ?_) fun behind hbehind =>
    Number.read_toString hlow hhigh hbehind
  rw [← NumberToken.text_ofInt] at hc
  exact (NumberToken.ofInt value).head?_text hc

/-- The tokens that write a document make it up, at the depth that it needs. -/
theorem HasTokens.spelled {document : Json} {tokens : List Token} (h : HasTokens document tokens)
    {depth : Nat} (hexact : Exact depth document) : Spelled depth document tokens := by
  induction h generalizing depth with
  | null => exact .scalar (scalar_word isWord_null fun _ _ _ => rfl)
  | true => exact .scalar (scalar_word isWord_true fun _ _ _ => rfl)
  | false => exact .scalar (scalar_word isWord_false fun _ _ _ => rfl)
  -- only an integer may be out of range, which exactness excludes
  | integer value =>
    cases hexact with
    | integer hlow hhigh => exact .scalar (scalar_integer hlow hhigh _)
  | string hwrites => exact .scalar (scalar_quoted hwrites.enclosed hwrites.read)
  | array _ ih =>
    cases hexact with
    | array hexact =>
      exact .array fun e he => ih e he (hexact e.value (List.mem_map_of_mem he))
  | @object members _ ih =>
    cases hexact with
    | @object depth _ hexact =>
      -- the key of a member is a string of its own
      have hentries : ∀ e ∈ members.map Member.spelling,
          e.name.Scalar (.string e.key) ∧ Spelled depth e.value e.tokens := by
        intro e he
        obtain ⟨m, hm, rfl⟩ := List.mem_map.1 he
        exact ⟨scalar_quoted m.writes.enclosed m.writes.read,
          ih m hm (hexact m.entry (List.mem_map_of_mem hm))⟩
      have hspelled := Spelled.object (fun e he => (hentries e he).1) fun e he => (hentries e he).2
      rw [List.map_map, List.map_map] at hspelled
      exact hspelled

/-- Every text that writes a document is read as this document. -/
theorem readText_hasTokens {document : Json} {tokens : List Token} {text : List Char}
    (hexact : Exact maxDepth document) (htokens : HasTokens document tokens)
    (h : Writes Blank Blank tokens text) : readText text = .ok document :=
  readText_iff_spelled.2 ⟨tokens, h, htokens.spelled hexact⟩

/-! ## What is kept and what is refused -/

/-- A text in which more brackets are open at once than the reader allows is refused. -/
theorem readText_ne_ok_of_nestsTo {tokens : List Token} {text : List Char}
    (h : Writes Blank Blank tokens text) (hdeep : NestsTo (maxDepth + 1) tokens)
    (document : Json) : readText text ≠ .ok document := by
  intro hread
  obtain ⟨others, hothers, hnested, -⟩ := readText_tokens hread
  -- the tokens that are read are those of the text
  have hsame : others = tokens := hothers.relaxed.unique h.relaxed
  exact hnested.not_nestsTo (hsame ▸ hdeep)

/-- Reading keeps a document as it is written: the elements of arrays in their order and the
entries of objects in theirs, those with a repeated key among them. It goes 127 levels deep;
a text with one more is refused, whatever its tokens are. -/
theorem read_keepsDocument :
    (∀ (document : Json) (tokens : List Token) (text : String), Exact 127 document →
      HasTokens document tokens → Writes Blank Blank tokens text.toList →
        read text = .ok document) ∧
    ∀ (tokens : List Token) (text : String), Writes Blank Blank tokens text.toList →
      NestsTo 128 tokens → ∃ error, read text = .error error := by
  constructor
  · intro document tokens text hexact htokens htext
    rw [read, readText_hasTokens hexact htokens htext]
    rfl
  -- no document at all is read where brackets nest too deep
  · intro tokens text htext hdeep
    cases hread : readText text.toList with
    | error fault => exact ⟨_, by rw [read, hread]; rfl⟩
    | ok document => exact absurd hread (readText_ne_ok_of_nestsTo htext hdeep document)

/-- A text of brackets, commas and colons without white space. -/
theorem spells_marks (marks : List Mark) :
    Spells Blank (marks.map Token.mark) (marks.map Mark.char) [] := by
  induction marks with
  | nil => rfl
  | cons m marks ih => exact ⟨[], _, rfl, by simp [Blank], trivial, ih⟩

/-- A repeated key, once as it is and once as an escape, and a character that a surrogate
pair writes are kept; 128 arrays inside each other are not read. -/
theorem read_keepsDocument_repeatedKey :
    read "\x7b\"a\" : 0,\n\"\\u0061\" : \"\\ud83d\\uDE00\"\x7d" =
      .ok (.object [("a", .number (.integer 0)), ("a", .string "😀")]) ∧
    ∃ error, read (String.ofList (List.replicate 128 '[' ++ List.replicate 128 ']')) =
      .error error := by
  have hraw : Quoted.WritesChar 'a' ['a'] := .raw (by decide) (by decide) (by decide)
  have hunit : Quoted.WritesChar 'a' ['\\', 'u', '0', '0', '6', '1'] := .unit (by decide)
  have hpair : Quoted.WritesChar '😀'
      ['\\', 'u', 'd', '8', '3', 'd', '\\', 'u', 'D', 'E', '0', '0'] :=
    .pair (by decide) (by decide : Quoted.IsHexQuad _ ['d', '8', '3', 'd']) (by decide)
  have hfirst : Quoted.WritesChars "a".toList ['a'] := .cons hraw .nil
  have hsecond : Quoted.WritesChars "a".toList ['\\', 'u', '0', '0', '6', '1'] := .cons hunit .nil
  have hface : Quoted.WritesChars "😀".toList
      ['\\', 'u', 'd', '8', '3', 'd', '\\', 'u', 'D', 'E', '0', '0'] := .cons hpair .nil
  constructor
  · have hdocument := @HasTokens.object
      [⟨"a", _, hfirst, .number (.integer 0), [.word ['0'] (isWord_toString 0)]⟩,
        ⟨"a", _, hsecond, .string "😀", [.quoted _ hface.enclosed]⟩] (by
      intro m hm
      rcases List.mem_pair.1 hm with rfl | rfl
      · exact .integer 0
      · exact .string hface)
    have hexact : Exact 127 (.object [("a", .number (.integer 0)), ("a", .string "😀")]) := by
      refine .object fun entry hentry => ?_
      rcases List.mem_pair.1 hentry with rfl | rfl
      · exact .integer (by decide) (by decide)
      · exact .string "😀"
    have htext : "\x7b\"a\" : 0,\n\"\\u0061\" : \"\\ud83d\\uDE00\"\x7d".toList =
        ['\x7b', '"', 'a', '"', ' ', ':', ' ', '0', ',', '\n', '"', '\\', 'u', '0', '0', '6', '1',
          '"', ' ', ':', ' ', '"', '\\', 'u', 'd', '8', '3', 'd', '\\', 'u', 'D', 'E', '0', '0',
          '"', '\x7d'] := rfl
    refine read_keepsDocument.1 _ _ _ hexact hdocument ⟨[], ?_, by simp [Blank]⟩
    -- one step for each of the nine tokens
    rw [htext]
    refine spells_mark.2 ⟨_, rfl, spells_cons.2 ⟨_, rfl, trivial, spells_mark.2 ⟨_, rfl,
      spells_cons.2 ⟨_, rfl, ?_, spells_mark.2 ⟨_, rfl, spells_cons.2 ⟨_, rfl, trivial,
        spells_mark.2 ⟨_, rfl, spells_cons.2 ⟨_, rfl, trivial, spells_mark.2 ⟨_, rfl, rfl⟩⟩⟩⟩⟩⟩⟩⟩⟩
    simp [Token.EndsAt, AtBoundary, Stops, isWordChar]
  · have hmarks := spells_marks (List.replicate 128 .arrayOpen ++ List.replicate 128 .arrayClose)
    rw [List.map_append, List.map_append, List.map_replicate, List.map_replicate,
      List.map_replicate, List.map_replicate] at hmarks
    have htext : Writes Blank Blank
        (List.replicate 128 (.mark .arrayOpen) ++ List.replicate 128 (.mark .arrayClose))
        (String.ofList (List.replicate 128 '[' ++ List.replicate 128 ']')).toList := by
      rw [String.toList_ofList]
      exact ⟨[], hmarks, by simp [Blank]⟩
    exact read_keepsDocument.2 _ _ htext ⟨_, List.prefix_append _ _, by decide +kernel⟩

end XrManifest.Json
