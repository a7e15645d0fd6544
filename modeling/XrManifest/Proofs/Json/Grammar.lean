import XrManifest.Proofs.Json.TokenReading

/-!
# The grammar of documents

`Spelled depth document tokens` says that the tokens make up the document, part by part: one
token for a scalar, and brackets around the tokens of elements or entries, with commas between
them. What is read is spelled, and what is spelled is read: the main statement is
`readText_iff_spelled`. So what is made of a text depends on its tokens alone, wherever white
space stands in it (`readText_tokens`).
-/

namespace XrManifest.Json

/-! ## Items -/

/-- A reader reads what the tokens write, in every text that starts with them. -/
structure Reads {α : Type} (reader : Reader α) (tokens : List Token) (a : α) : Prop where
  starts : ∃ token ∈ tokens.head?, token.startsValue = true
  read : ∀ text rest, Spells Blank tokens text rest → AtBoundary rest →
    reader (skipSpaces text) = .ok (a, rest)

/-- The tokens of items with commas between them. -/
def separated (items : List (List Token)) : List Token := [.mark .comma].intercalate items

theorem separated_singleton (item : List Token) : separated [item] = item :=
  List.intercalate_singleton

theorem separated_cons_cons (item next : List Token) (items : List (List Token)) :
    separated (item :: next :: items) = item ++ .mark .comma :: separated (next :: items) := by
  rw [separated, List.intercalate_cons_cons, List.append_assoc]
  rfl

section
variable {α β P : Type} {item : Reader α} {items : Nat → Reader (List α)} {close : Mark}
  {value : P → α} {tokens : P → List Token} {parts : List P}

/-- What starts the first item starts the list. -/
theorem separated_starts (hne : parts ≠ [])
    (h : ∀ part ∈ parts, ∃ token ∈ (tokens part).head?, token.startsValue = true)
    (others : List Token) :
    ∃ token ∈ (separated (parts.map tokens) ++ others).head?, token.startsValue = true := by
  cases parts with
  | nil => exact absurd rfl hne
  | cons part parts =>
    obtain ⟨token, htoken, hstarts⟩ := h part List.mem_cons_self
    refine ⟨token, ?_, hstarts⟩
    cases parts with
    | nil =>
      rw [List.map_singleton, separated_singleton]
      exact List.mem_head?_append_of_mem_head? htoken
    | cons next parts =>
      rw [List.map_cons, List.map_cons, separated_cons_cons, List.append_assoc]
      exact List.mem_head?_append_of_mem_head? htoken

/-- Items with commas between them are read up to the closing bracket. -/
theorem reads_items (hclose : close = .arrayClose ∨ close = .objectClose)
    (hstep : ∀ bound text values rest, items (bound + 1) text = .ok (values, rest) ↔
      ItemStep item close (items bound) text values rest)
    (hne : parts ≠ []) (hitem : ∀ part ∈ parts, Reads item (tokens part) (value part))
    {text rest : List Char}
    (h : Spells Blank (separated (parts.map tokens) ++ [.mark close]) text rest)
    {bound : Nat} (hbound : (skipSpaces text).length ≤ bound) :
    items bound (skipSpaces text) = .ok (parts.map value, rest) := by
  induction parts generalizing text bound with
  | nil => exact absurd rfl hne
  | cons part parts ih =>
    have hpart := hitem part List.mem_cons_self
    cases parts with
    | nil =>
      -- the last item and the closing bracket
      rw [List.map_singleton, separated_singleton] at h
      have hlength := ((spells_skipSpaces (by simp)).2 h).length_le
      obtain ⟨behind, hfirst, hlast⟩ := spells_append.1 h
      obtain ⟨_, hend, rfl⟩ := spells_mark.1 hlast
      have hread := hpart.read _ _ hfirst (atBoundary_of_mark hend)
      cases bound with
      | zero => simp at hlength; omega
      | succ bound => exact (hstep _ _ _ _).2 ⟨_, behind, hread, .inl ⟨hend, rfl⟩⟩
    | cons next parts =>
      -- an item, a comma and more items
      rw [List.map_cons, List.map_cons, separated_cons_cons, List.append_assoc,
        List.cons_append] at h
      obtain ⟨behind, hfirst, hlast⟩ := spells_append.1 ((spells_skipSpaces (by simp)).2 h)
      have hfirstLength := hfirst.length_le
      obtain ⟨tail, hcomma, hmore⟩ := spells_mark.1 hlast
      have hbehindLength := length_skipSpaces_le behind
      have htailLength := length_skipSpaces_le tail
      rw [hcomma, List.length_cons] at hbehindLength
      have hread := hpart.read _ _ hfirst (atBoundary_of_mark (m := .comma) hcomma)
      rw [skipSpaces_skipSpaces] at hread
      have hothers : ∀ other ∈ next :: parts, Reads item (tokens other) (value other) :=
        fun other hother => hitem other (List.mem_cons_of_mem part hother)
      have hstarts := separated_starts (List.cons_ne_nil next parts)
        (fun other hother => (hothers other hother).starts) [.mark close]
      cases bound with
      | zero => omega
      | succ bound =>
        have hrest : items bound (skipSpaces tail) = .ok ((next :: parts).map value, rest) :=
          ih (List.cons_ne_nil next parts) hothers hmore (by omega)
        refine (hstep _ _ _ _).2 ⟨_, behind, hread, .inr ⟨tail, _, hcomma, ?_, hrest, rfl⟩⟩
        intro u
        exact skipSpaces_ne_close hstarts hclose hmore

/-- A container is read behind its opening bracket. -/
theorem reads_container {container : Reader β} {wrap : List α → β}
    (hclose : close = .arrayClose ∨ close = .objectClose)
    (hstep : ∀ bound text values rest, items (bound + 1) text = .ok (values, rest) ↔
      ItemStep item close (items bound) text values rest)
    (hcontainer : ∀ text b rest, container text = .ok (b, rest) ↔
      (skipSpaces text = close.char :: rest ∧ b = wrap []) ∨
        ((∀ u, skipSpaces text ≠ close.char :: u) ∧ ∃ values,
          items (skipSpaces text).length (skipSpaces text) = .ok (values, rest) ∧
            b = wrap values))
    (hitem : ∀ part ∈ parts, Reads item (tokens part) (value part)) {text rest : List Char}
    (h : Spells Blank (separated (parts.map tokens) ++ [.mark close]) text rest) :
    container text = .ok (wrap (parts.map value), rest) := by
  rw [hcontainer]
  -- an empty container is closed at once
  by_cases hne : parts = []
  · left
    subst hne
    obtain ⟨_, hend, rfl⟩ := spells_mark.1 h
    exact ⟨hend, rfl⟩
  · right
    have hstarts := separated_starts hne (fun part hpart => (hitem part hpart).starts)
      [.mark close]
    refine ⟨fun u => skipSpaces_ne_close hstarts hclose h, parts.map value, ?_, rfl⟩
    exact reads_items hclose hstep hne hitem h le_rfl

end

/-! ## Documents -/

/-- An element of an array and its tokens. -/
structure Element where
  value : Json
  tokens : List Token

/-- An entry of an object, with the token of its key and the tokens of its value. -/
structure Entry where
  key : String
  name : Token
  value : Json
  tokens : List Token

def Entry.entry (e : Entry) : String × Json := (e.key, e.value)

def Entry.entryTokens (e : Entry) : List Token := e.name :: .mark .colon :: e.tokens

/-- The tokens make up the document, in which arrays and objects stand inside each other up to
`depth` deep. -/
inductive Spelled : (depth : Nat) → Json → List Token → Prop where
  | scalar {depth : Nat} {token : Token} {value : Json} (h : token.Scalar value) :
      Spelled depth value [token]
  | array {depth : Nat} {elements : List Element}
      (values : ∀ e ∈ elements, Spelled depth e.value e.tokens) :
      Spelled (depth + 1) (.array (elements.map Element.value))
        (.mark .arrayOpen :: (separated (elements.map Element.tokens) ++ [.mark .arrayClose]))
  | object {depth : Nat} {entries : List Entry}
      (names : ∀ e ∈ entries, e.name.Scalar (.string e.key))
      (values : ∀ e ∈ entries, Spelled depth e.value e.tokens) :
      Spelled (depth + 1) (.object (entries.map Entry.entry))
        (.mark .objectOpen ::
          (separated (entries.map Entry.entryTokens) ++ [.mark .objectClose]))

/-! ## What is read is spelled -/

section
variable {α β P : Type} {item : Reader α} {items : Nat → Reader (List α)} {close : Mark}
  {value : P → α} {tokens : P → List Token} {good : P → Prop}

/-- The items between brackets that are read have their tokens one after the other, with commas
between them. -/
theorem items_parts
    (hitem : ∀ text a rest, item text = .ok (a, rest) → AtBoundary rest →
      ∃ part, good part ∧ value part = a ∧ Spells Blank (tokens part) text rest)
    (hzero : ∀ text result, items 0 text ≠ .ok result)
    (hstep : ∀ bound text values rest, items (bound + 1) text = .ok (values, rest) ↔
      ItemStep item close (items bound) text values rest)
    {bound : Nat} {text rest : List Char} {values : List α}
    (h : items bound text = .ok (values, rest)) :
    ∃ parts : List P, (∀ part ∈ parts, good part) ∧ parts.map value = values ∧
      Spells Blank (separated (parts.map tokens) ++ [.mark close]) text rest := by
  induction bound generalizing text values with
  | zero => exact absurd h (hzero _ _)
  | succ bound ih =>
    obtain ⟨a, behind, ha, hnext⟩ := (hstep _ _ _ _).1 h
    rcases hnext with ⟨hend, rfl⟩ | ⟨next, others, hcomma, -, hmore, rfl⟩
    · -- the last item and the closing bracket
      obtain ⟨part, hpart, rfl, hspells⟩ := hitem _ _ _ ha (atBoundary_of_mark hend)
      refine ⟨[part], by simpa using hpart, rfl, ?_⟩
      rw [List.map_singleton, separated_singleton]
      exact spells_append.2 ⟨behind, hspells, spells_mark.2 ⟨rest, hend, rfl⟩⟩
    · -- an item, a comma and more items
      obtain ⟨part, hpart, rfl, hspells⟩ :=
        hitem _ _ _ ha (atBoundary_of_mark (m := .comma) hcomma)
      obtain ⟨parts, hparts, rfl, hrest⟩ := ih hmore
      -- behind a comma there is another item
      have hne : parts ≠ [] := by
        rintro rfl
        cases bound with
        | zero => exact hzero _ _ hmore
        | succ bound =>
          obtain ⟨_, _, -, ⟨-, hnil⟩ | ⟨_, _, -, -, -, hnil⟩⟩ := (hstep _ _ _ _).1 hmore <;>
            cases hnil
      obtain ⟨second, parts, rfl⟩ := List.exists_cons_of_ne_nil hne
      refine ⟨part :: second :: parts, ?_, rfl, ?_⟩
      · intro other hother
        rcases List.mem_cons.1 hother with rfl | hother
        · exact hpart
        · exact hparts other hother
      · rw [List.map_cons, List.map_cons, separated_cons_cons, List.append_assoc, List.cons_append]
        refine spells_append.2 ⟨behind, hspells, spells_mark.2 ⟨next, hcomma, ?_⟩⟩
        exact (spells_skipSpaces (by simp)).1 hrest

/-- So has a container, which may have no items. -/
theorem container_parts {container : Reader β} {wrap : List α → β}
    (hitem : ∀ text a rest, item text = .ok (a, rest) → AtBoundary rest →
      ∃ part, good part ∧ value part = a ∧ Spells Blank (tokens part) text rest)
    (hzero : ∀ text result, items 0 text ≠ .ok result)
    (hstep : ∀ bound text values rest, items (bound + 1) text = .ok (values, rest) ↔
      ItemStep item close (items bound) text values rest)
    (hcontainer : ∀ text b rest, container text = .ok (b, rest) ↔
      (skipSpaces text = close.char :: rest ∧ b = wrap []) ∨
        ((∀ u, skipSpaces text ≠ close.char :: u) ∧ ∃ values,
          items (skipSpaces text).length (skipSpaces text) = .ok (values, rest) ∧
            b = wrap values))
    {text rest : List Char} {b : β} (h : container text = .ok (b, rest)) :
    ∃ parts : List P, (∀ part ∈ parts, good part) ∧ b = wrap (parts.map value) ∧
      Spells Blank (separated (parts.map tokens) ++ [.mark close]) text rest := by
  rcases (hcontainer _ _ _).1 h with ⟨hend, rfl⟩ | ⟨-, values, hvalues, rfl⟩
  · exact ⟨[], by simp, rfl, spells_mark.2 ⟨rest, hend, rfl⟩⟩
  · obtain ⟨parts, hparts, rfl, hspells⟩ := items_parts hitem hzero hstep hvalues
    exact ⟨parts, hparts, rfl, (spells_skipSpaces (by simp)).1 hspells⟩

end

/-- A reader reads only what is spelled. -/
def OnlySpelled (depth : Nat) (reader : Reader Json) : Prop :=
  ∀ text value rest, reader text = .ok (value, rest) → AtBoundary rest →
    ∃ tokens, Spells Blank tokens text rest ∧ Spelled depth value tokens

/-- The key of an entry is a token, and its value has tokens. -/
theorem readEntry_parts {depth : Nat} {element : Reader Json} (helement : OnlySpelled depth element)
    {text rest : List Char} {entry : String × Json}
    (h : readEntry element text = .ok (entry, rest)) (hrest : AtBoundary rest) :
    ∃ e : Entry, (e.name.Scalar (.string e.key) ∧ Spelled depth e.value e.tokens) ∧
      e.entry = entry ∧ Spells Blank e.entryTokens text rest := by
  obtain ⟨key, value⟩ := entry
  obtain ⟨behind, hkey, hvalue⟩ := readEntry_eq_ok.1 h
  -- a key is a string with a colon behind it
  obtain ⟨tail, colon, rfl, hread, hcolon⟩ := readKey_eq_ok.1 hkey
  obtain ⟨inside, hinside, rfl, hreads⟩ := Quoted.read_token hread
  obtain ⟨tokens, hspells, hspelled⟩ := helement _ _ _ hvalue hrest
  refine ⟨⟨key, .quoted inside hinside, value, tokens⟩,
    ⟨scalar_quoted hinside hreads, hspelled⟩, rfl, ?_⟩
  exact ⟨[], colon, by simp [Token.text], by simp [Blank], trivial,
    spells_mark.2 ⟨behind, hcolon, hspells⟩⟩

/-- By induction on the depth: every value that is read is spelled. -/
theorem readValue_onlySpelled (depth : Nat) : OnlySpelled depth (readValue depth) := by
  induction depth with
  -- at depth 0 neither an array nor an object is read
  | zero =>
    intro text value rest h hrest
    rw [readValue] at h
    rcases readValueWith_cases h hrest with ⟨_, _, hnone⟩ | ⟨_, _, hnone⟩ |
      ⟨token, hscalar, htext, hends⟩
    · cases hnone
    · cases hnone
    · exact ⟨[token], spells_cons.2 ⟨rest, htext, hends, rfl⟩, .scalar hscalar⟩
  | succ depth ih =>
    intro text value rest h hrest
    rw [readValue] at h
    rcases readValueWith_cases h hrest with ⟨tail, htext, hvalue⟩ | ⟨tail, htext, hvalue⟩ |
      ⟨token, hscalar, htext, hends⟩
    -- the elements are spelled one level less deep
    · have helement : ∀ text a rest, readValue depth text = .ok (a, rest) → AtBoundary rest →
          ∃ e : Element, Spelled depth e.value e.tokens ∧ e.value = a ∧
            Spells Blank e.tokens text rest := by
        intro text a rest h hrest
        obtain ⟨tokens, hspells, hspelled⟩ := ih _ _ _ h hrest
        exact ⟨⟨a, tokens⟩, hspelled, rfl, hspells⟩
      obtain ⟨elements, helements, rfl, hspells⟩ :=
        container_parts helement readElements_zero readElements_succ readArray_eq_ok hvalue
      exact ⟨_, spells_mark.2 ⟨tail, htext, hspells⟩, .array helements⟩
    · obtain ⟨entries, hentries, rfl, hspells⟩ :=
        container_parts (fun _ _ _ => readEntry_parts ih) readEntries_zero readEntries_succ
          readObject_eq_ok hvalue
      exact ⟨_, spells_mark.2 ⟨tail, htext, hspells⟩,
        .object (fun e he => (hentries e he).1) fun e he => (hentries e he).2⟩
    · exact ⟨[token], spells_cons.2 ⟨rest, htext, hends, rfl⟩, .scalar hscalar⟩

/-! ## What is spelled is read -/

/-- The reader of values at any depth is one of those for values without parts. -/
theorem readValue_eq (depth : Nat) :
    ∃ array object, readValue depth = readValueWith array object := by
  cases depth with
  | zero => exact ⟨_, _, by rw [readValue]⟩
  | succ depth => exact ⟨_, _, by rw [readValue]⟩

/-- A value of one token is read at every depth. -/
theorem Token.Scalar.reads {token : Token} {value : Json} (h : token.Scalar value) (depth : Nat) :
    Reads (readValue depth) [token] value := by
  refine ⟨⟨token, rfl, h.startsValue⟩, ?_⟩
  intro text rest hspells _
  obtain ⟨behind, htext, hends, rfl⟩ := spells_cons.1 hspells
  obtain ⟨array, object, heq⟩ := readValue_eq depth
  rw [htext, heq]
  exact h array object behind hends

/-- An entry is read when its key and its value are. -/
theorem Entry.reads {depth : Nat} {e : Entry} (hname : e.name.Scalar (.string e.key))
    (h : Reads (readValue depth) e.tokens e.value) :
    Reads (readEntry (readValue depth)) e.entryTokens e.entry := by
  obtain ⟨key, name, value, tokens⟩ := e
  refine ⟨⟨name, rfl, hname.startsValue⟩, ?_⟩
  intro text rest hspells hrest
  obtain ⟨colon, htext, -, hcolon⟩ := spells_cons.1 hspells
  obtain ⟨behind, hmark, hvalue⟩ := spells_mark.1 hcolon
  have hread := h.read behind rest hvalue hrest
  rw [readValue_skipSpaces] at hread
  -- of all tokens, only a string is the key
  cases name with
  | mark m => exact absurd rfl (hname.ne_mark m)
  | word letters hword =>
    rcases hname.word with ⟨n, hn, -⟩ | hn | ⟨b, hn⟩ <;> cases hn
  | quoted inside hinside =>
    obtain ⟨s, hs, hquoted⟩ := hname.quoted
    obtain rfl := Json.string.inj hs
    have hkey : skipSpaces text = '"' :: (inside ++ '"' :: colon) := by
      rw [htext]
      simp [Token.text]
    exact readEntry_eq_ok.2
      ⟨behind, readKey_eq_ok.2 ⟨_, colon, hkey, hquoted colon, hmark⟩, hread⟩

/-- Every value that is spelled is read. -/
theorem Spelled.reads {depth : Nat} {document : Json} {tokens : List Token}
    (h : Spelled depth document tokens) : Reads (readValue depth) tokens document := by
  induction h with
  | scalar h => exact h.reads _
  | @array depth elements _ ih =>
    refine ⟨⟨_, rfl, rfl⟩, ?_⟩
    intro text rest hspells _
    obtain ⟨behind, htext, hinner⟩ := spells_mark.1 hspells
    have hread := reads_container (.inl rfl) readElements_succ readArray_eq_ok ih hinner
    rw [htext]
    simpa [readValue, readValueWith, skipSpaces, isSpace, Mark.char] using hread
  | @object depth entries hnames _ ih =>
    -- each entry is read by its key and its value
    have hitem : ∀ e ∈ entries, Reads (readEntry (readValue depth)) e.entryTokens e.entry :=
      fun e he => Entry.reads (hnames e he) (ih e he)
    refine ⟨⟨_, rfl, rfl⟩, ?_⟩
    intro text rest hspells _
    obtain ⟨behind, htext, hinner⟩ := spells_mark.1 hspells
    have hread := reads_container (.inr rfl) readEntries_succ readObject_eq_ok hitem hinner
    rw [htext]
    simpa [readValue, readValueWith, skipSpaces, isSpace, Mark.char] using hread

/-! ## Whole texts -/

/-- A text is read as a document exactly when its tokens make up this document. -/
theorem readText_iff_spelled {text : List Char} {document : Json} :
    readText text = .ok document ↔
      ∃ tokens, Writes Blank Blank tokens text ∧ Spelled maxDepth document tokens := by
  constructor
  · intro h
    obtain ⟨⟨value, rest⟩, hvalue, hend⟩ := bind_eq_ok.1 h
    dsimp only at hend
    split at hend
    case h_2 => cases hend
    case h_1 hnil =>
      obtain rfl := Except.ok.inj hend
      have hblank : Blank rest := skipSpaces_eq_nil.1 hnil
      obtain ⟨tokens, hspells, hspelled⟩ :=
        readValue_onlySpelled maxDepth _ _ _ hvalue hblank.atBoundary
      exact ⟨tokens, ⟨rest, hspells, hblank⟩, hspelled⟩
  -- what is behind the tokens is blank, so nothing is left over
  · rintro ⟨tokens, ⟨rest, hspells, hrest⟩, hspelled⟩
    have hread := hspelled.reads.read text rest hspells hrest.atBoundary
    rw [readValue_skipSpaces] at hread
    refine bind_eq_ok.2 ⟨_, hread, ?_⟩
    simp only [skipSpaces_eq_nil.2 hrest]
    rfl

/-! ## Nesting -/

/-- Commas open and close nothing. -/
theorem nested_separated {depth : Nat} {items : List (List Token)} (hne : items ≠ [])
    (h : ∀ item ∈ items, Nested depth 0 item) : Nested depth 0 (separated items) := by
  induction items with
  | nil => exact absurd rfl hne
  | cons item items ih =>
    cases items with
    | nil =>
      rw [separated_singleton]
      exact h item List.mem_cons_self
    | cons next items =>
      rw [separated_cons_cons]
      have hlater := ih (List.cons_ne_nil next items) fun other hother =>
        h other (List.mem_cons_of_mem _ hother)
      exact (h item List.mem_cons_self).join (.inl rfl) hlater

/-- Items between brackets open one more bracket than each of them. -/
theorem nested_container {depth : Nat} {start close : Mark} {items : List (List Token)}
    (hmarks : (start = .arrayOpen ∧ close = .arrayClose) ∨
      (start = .objectOpen ∧ close = .objectClose))
    (h : ∀ item ∈ items, Nested depth 0 item) :
    Nested (depth + 1) 0 (.mark start :: (separated items ++ [.mark close])) := by
  by_cases hne : items = []
  · subst hne
    exact .pair hmarks
  · exact ((nested_separated hne h).closed (hmarks.imp And.right And.right)).opened
      (hmarks.imp And.left And.left)

/-- The tokens of a document open no more brackets at once than its depth allows. -/
theorem Spelled.nested {depth : Nat} {document : Json} {tokens : List Token}
    (h : Spelled depth document tokens) : Nested depth 0 tokens := by
  induction h with
  | scalar h => exact h.nested _
  | @array depth elements _ ih =>
    refine nested_container (.inl ⟨rfl, rfl⟩) fun item hitem => ?_
    obtain ⟨e, he, rfl⟩ := List.mem_map.1 hitem
    exact ih e he
  | @object depth entries hnames _ ih =>
    refine nested_container (.inr ⟨rfl, rfl⟩) fun item hitem => ?_
    obtain ⟨e, he, rfl⟩ := List.mem_map.1 hitem
    -- the key is a phrase of its own in front of the colon
    exact ((hnames e he).nested depth).join (.inr rfl) (ih e he)

/-- The text of a value is a phrase that is not nested too deep, and every text with the
same tokens has the same value. -/
theorem readText_tokens {text : List Char} {value : Json} (h : readText text = .ok value) :
    ∃ tokens, Writes Blank Blank tokens text ∧ Nested maxDepth 0 tokens ∧
      ∀ other, Writes Blank Blank tokens other → readText other = .ok value := by
  obtain ⟨tokens, hwrites, hspelled⟩ := readText_iff_spelled.1 h
  exact ⟨tokens, hwrites, hspelled.nested,
    fun other hother => readText_iff_spelled.2 ⟨tokens, hother, hspelled⟩⟩

/-! ## Numbers -/

namespace NumberToken

variable (t : NumberToken)

def token : Token := .word t.text t.isWord

/-- The token of a number is read as its value. -/
theorem scalar_iff {value : Json} :
    t.token.Scalar value ↔ ∃ n, value = .number n ∧ t.numeral.value [] = .ok n := by
  have hread : ∀ n, (∀ behind, AtBoundary behind →
      Number.read (t.text ++ behind) = .ok (n, behind)) ↔ t.numeral.value [] = .ok n := by
    intro n
    constructor
    · intro h
      have hnil : AtBoundary [] := by simp [AtBoundary, Stops]
      obtain ⟨⟨numeral, rest⟩, hnumeral, hvalue⟩ := bind_eq_ok.1 (h [] hnil)
      obtain ⟨rfl, rfl⟩ := Prod.mk.inj (Except.ok.inj ((t.read hnil).symm.trans hnumeral))
      obtain ⟨found, hfound, hpair⟩ := bind_eq_ok.1 hvalue
      rw [← (Prod.mk.inj (Except.ok.inj hpair)).1]
      exact hfound
    · intro h behind hbehind
      refine bind_eq_ok.2 ⟨_, t.read hbehind, ?_⟩
      exact bind_eq_ok.2 ⟨n, Numeral.value_eq_ok h behind, rfl⟩
  constructor
  · intro h
    obtain ⟨n, rfl, hn⟩ := h.number fun c hc => t.head?_text hc
    exact ⟨n, rfl, (hread n).1 hn⟩
  · rintro ⟨n, rfl, hn⟩
    exact scalar_number t.isWord (fun c hc => t.head?_text hc) ((hread n).2 hn)

/-- The token of a number is read as an integer of 32 bits exactly where it is written as one. -/
theorem scalar_int32 {n : Int32} :
    t.token.Scalar (.number (.integer n.toInt)) ↔ t.WritesInt32 ∧ t.integer = n.toInt := by
  have hvalue : t.numeral.value [] = .ok (.integer n.toInt) ↔
      t.WritesInt32 ∧ t.integer = n.toInt := t.value_eq_int32
  rw [scalar_iff, ← hvalue]
  simp

end NumberToken

/-- A scalar that is a number has the token of one. -/
theorem Token.Scalar.exists_numberToken {token : Token} {n : Number}
    (h : token.Scalar (.number n)) : ∃ t : NumberToken, token = t.token := by
  -- neither a mark nor a string is read as a number
  cases token with
  | mark m => exact absurd rfl (h.ne_mark m)
  | quoted inside hinside =>
    obtain ⟨s, hs, -⟩ := h.quoted
    cases hs
  | word letters hword =>
    rcases h.word with ⟨n, -, hread⟩ | hnull | ⟨b, hboolean⟩
    · have hnil : AtBoundary [] := by simp [AtBoundary, Stops]
      obtain ⟨⟨numeral, rest⟩, hnumeral, hvalue⟩ := bind_eq_ok.1 (hread [] hnil)
      obtain ⟨found, -, hpair⟩ := bind_eq_ok.1 hvalue
      obtain ⟨-, rfl⟩ := Prod.mk.inj (Except.ok.inj hpair)
      obtain ⟨t, -, htext⟩ := Json.exists_numberToken hnumeral
      obtain rfl : letters = t.text := List.append_cancel_right htext
      exact ⟨t, rfl⟩
    · cases hnull
    · cases hboolean

namespace NumberToken

theorem isWord_zero : IsWord ['0'] := ⟨by simp, List.all_eq_true.1 rfl⟩

/-- The integer 0 is written in one way. -/
theorem WritesInt32.text_of_zero {t : NumberToken} (h : t.WritesInt32) (hzero : t.integer = 0) :
    t.text = ['0'] := by
  have hdigits : Nat.ofDigitChars 10 t.whole 0 = 0 := by
    unfold integer at hzero
    split at hzero <;> omega
  have hnegative : t.negative = false := by
    rw [← Bool.not_eq_true]
    exact fun hminus =>
      h.not_minusZero ((t.text_eq_minusZero h.fraction h.exponent).2 ⟨hminus, hdigits⟩)
  rw [t.text_of_plain h.fraction h.exponent, t.whole_of_ofDigitChars hdigits]
  simp [minus, hnegative]

end NumberToken

/-- The integer 0 is one token, the digit 0. -/
theorem Spelled.zero {depth : Nat} {tokens : List Token}
    (h : Spelled depth (.number (.integer 0)) tokens) :
    tokens = [.word ['0'] NumberToken.isWord_zero] := by
  generalize hvalue : Json.number (.integer 0) = value at h
  cases h with
  | array _ => cases hvalue
  | object _ _ => cases hvalue
  | @scalar _ token _ hscalar =>
    subst hvalue
    obtain ⟨t, rfl⟩ := hscalar.exists_numberToken
    obtain ⟨hint, hinteger⟩ := (t.scalar_int32 (n := 0)).1 hscalar
    simp only [NumberToken.token, hint.text_of_zero hinteger]

end XrManifest.Json
