import XrManifest.Proofs.Json.Nesting
import XrManifest.Proofs.Json.NumberTokens

/-!
# The steps of the reader

What the readers of strict text do when they succeed. The readers of array elements and of
object entries take the same steps with other items between other brackets, which `ItemStep`
says once. A value starts with a bracket or is a scalar (`readValueWith_cases`), which is one
token: `Token.Scalar` says that a token is read as a value wherever it stands.
-/

namespace XrManifest.Json

/-! ## Items between brackets -/

section
variable {α : Type} {close : Mark}

/-- What a reader of items does when it succeeds: it reads one item, and then either the
closing bracket or a comma and `more` items. -/
def ItemStep (item : Reader α) (close : Mark) (more : Reader (List α)) (text : List Char)
    (values : List α) (rest : List Char) : Prop :=
  ∃ value behind, item text = .ok (value, behind) ∧
    ((skipSpaces behind = close.char :: rest ∧ values = [value]) ∨
      ∃ next others, skipSpaces behind = ',' :: next ∧
        (∀ u, skipSpaces next ≠ close.char :: u) ∧
        more (skipSpaces next) = .ok (others, rest) ∧ values = value :: others)

/-- What starts like a value does not start with a closing bracket. -/
theorem skipSpaces_ne_close {tokens : List Token} {text rest u : List Char}
    (hstarts : ∃ token ∈ tokens.head?, token.startsValue = true)
    (hclose : close = .arrayClose ∨ close = .objectClose)
    (hspells : Spells Blank tokens text rest) : skipSpaces text ≠ close.char :: u := by
  intro htext
  obtain ⟨first, hfirst, hvalue⟩ := hstarts
  cases tokens with
  | nil => exact absurd hfirst (by simp)
  | cons token tokens =>
    have htoken : token = first := by simpa using hfirst
    rcases spells_cons.1 hspells with ⟨behind, hbehind, hends, -⟩
    have hsame : token.text ++ behind = (Token.mark close).text ++ u := hbehind.symm.trans htext
    have hmark : token = .mark close := (Token.unique hsame hends trivial).1
    rw [← htoken, hmark] at hvalue
    rcases hclose with rfl | rfl <;> exact absurd hvalue (by decide)

end

/-! ## Arrays -/

section
variable {element : Reader Json}

theorem readElements_zero (text : List Char) (result : List Json × List Char) :
    readElements element 0 text ≠ .ok result := by
  intro h
  cases h

/-- One element is read, and then the bracket or a comma with more elements. -/
theorem readElements_succ (bound : Nat) (text : List Char) (values : List Json)
    (rest : List Char) :
    readElements element (bound + 1) text = .ok (values, rest) ↔
      ItemStep element .arrayClose (readElements element bound) text values rest := by
  simp only [readElements, bind_eq_ok, ItemStep, Prod.exists]
  -- what follows the element decides
  refine exists_congr fun value => exists_congr fun behind => and_congr_right fun _ => ?_
  split
  case h_1 heq => simp [heq, throw, throwThe, MonadExceptOf.throw]
  case h_2 tail heq =>
    simp [heq, Mark.char, pure, Except.pure, and_comm, eq_comm]
  case h_3 tail heq =>
    split
    case h_1 next htail =>
      simp [heq, htail, Mark.char, throw, throwThe, MonadExceptOf.throw]
    case h_2 hnot =>
      simp only [heq, Mark.char, bind_eq_ok, Prod.exists, pure, Except.pure, Except.ok.injEq,
        Prod.mk.injEq, List.cons.injEq, true_and, Char.reduceEq, false_and, false_or]
      constructor
      · rintro ⟨others, rest', hmore, rfl, rfl⟩
        exact ⟨tail, others, rfl, fun u => hnot u, hmore, rfl⟩
      · rintro ⟨_, others, rfl, -, hmore, rfl⟩
        exact ⟨others, rest, hmore, rfl, rfl⟩
  case h_4 hnil hclose hcomma =>
    simp only [throw, throwThe, MonadExceptOf.throw, reduceCtorEq, Mark.char, false_iff]
    rintro (⟨heq, -⟩ | ⟨next, _, heq, -⟩)
    · exact hclose _ heq
    · exact hcomma _ heq

/-- An array has no elements, or its first one is due. -/
theorem readArray_eq_ok (text : List Char) (value : Json) (rest : List Char) :
    readArray element text = .ok (value, rest) ↔
      (skipSpaces text = Mark.arrayClose.char :: rest ∧ value = .array []) ∨
        ((∀ u, skipSpaces text ≠ Mark.arrayClose.char :: u) ∧ ∃ values,
          readElements element (skipSpaces text).length (skipSpaces text) = .ok (values, rest) ∧
            value = .array values) := by
  unfold readArray
  split
  case h_1 heq => simp [heq, Mark.char, readElements]
  case h_2 tail heq => simp [heq, Mark.char, and_comm, eq_comm]
  -- neither an end nor a closing bracket: there are elements
  case h_3 hnot =>
    simp only [map_eq_ok, Prod.exists, Prod.mk.injEq, Mark.char]
    constructor
    · rintro ⟨values, _, hvalues, rfl, rfl⟩
      exact .inr ⟨fun u => hnot u, values, hvalues, rfl⟩
    · rintro (⟨heq, -⟩ | ⟨-, values, hvalues, rfl⟩)
      · exact absurd heq (hnot _)
      · exact ⟨values, rest, hvalues, rfl, rfl⟩

end

/-! ## Objects -/

section
variable {element : Reader Json}

/-- A key is a string with a colon behind it. -/
theorem readKey_eq_ok {text rest : List Char} {key : String} :
    readKey text = .ok (key, rest) ↔
      ∃ inside behind, text = '"' :: inside ∧ Quoted.read inside = .ok (key, behind) ∧
        skipSpaces behind = ':' :: rest := by
  unfold readKey
  split
  case h_1 => simp
  case h_2 inside =>
    simp only [bind_eq_ok, Prod.exists, List.cons.injEq, true_and]
    constructor
    · rintro ⟨key', behind, hkey, h⟩
      split at h
      case h_1 => cases h
      case h_2 tail heq =>
        rcases Prod.mk.inj (Except.ok.inj h) with ⟨rfl, rfl⟩
        exact ⟨inside, behind, rfl, hkey, heq⟩
      case h_3 => cases h
    · rintro ⟨_, behind, rfl, hkey, hcolon⟩
      exact ⟨key, behind, hkey, by simp only [hcolon]; rfl⟩
  -- without a quote there is no key
  case h_3 hquote =>
    simp only [reduceCtorEq, false_iff]
    rintro ⟨inside, _, rfl, -⟩
    exact hquote _ rfl

/-- The reader of one entry: its key, the colon and its value. -/
def readEntry (element : Reader Json) : Reader (String × Json) := fun text => do
  let (key, rest) ← readKey text
  let (value, rest) ← element rest
  return ((key, value), rest)

/-- An entry is a key and a value. -/
theorem readEntry_eq_ok {text rest : List Char} {key : String} {value : Json} :
    readEntry element text = .ok ((key, value), rest) ↔
      ∃ behind, readKey text = .ok (key, behind) ∧ element behind = .ok (value, rest) := by
  simp only [readEntry, bind_eq_ok, Prod.exists, pure, Except.pure, Except.ok.injEq,
    Prod.mk.injEq]
  constructor
  · rintro ⟨_, behind, hkey, _, _, hvalue, ⟨rfl, rfl⟩, rfl⟩
    exact ⟨behind, hkey, hvalue⟩
  · rintro ⟨behind, hkey, hvalue⟩
    exact ⟨key, behind, hkey, value, rest, hvalue, ⟨rfl, rfl⟩, rfl⟩

theorem readEntries_zero (text : List Char) (result : List (String × Json) × List Char) :
    readEntries element 0 text ≠ .ok result := by
  intro h
  cases h

/-- One entry is read, and then the brace or a comma with more entries. -/
theorem readEntries_succ (bound : Nat) (text : List Char) (entries : List (String × Json))
    (rest : List Char) :
    readEntries element (bound + 1) text = .ok (entries, rest) ↔
      ItemStep (readEntry element) .objectClose (readEntries element bound) text entries rest := by
  have hassoc : (∃ key middle, readKey text = .ok (key, middle) ∧ ∃ value behind,
      element middle = .ok (value, behind) ∧
        ((skipSpaces behind = '\x7d' :: rest ∧ entries = [(key, value)]) ∨
          ∃ next others, skipSpaces behind = ',' :: next ∧
            (∀ u, skipSpaces next ≠ '\x7d' :: u) ∧
            readEntries element bound (skipSpaces next) = .ok (others, rest) ∧
              entries = (key, value) :: others)) ↔
      ItemStep (readEntry element) .objectClose (readEntries element bound) text entries rest := by
    simp only [ItemStep, Prod.exists, readEntry_eq_ok]
    constructor
    · rintro ⟨key, middle, hkey, value, behind, hvalue, h⟩
      exact ⟨key, value, behind, ⟨middle, hkey, hvalue⟩, h⟩
    · rintro ⟨key, value, behind, ⟨middle, hkey, hvalue⟩, h⟩
      exact ⟨key, middle, hkey, value, behind, hvalue, h⟩
  rw [← hassoc]
  simp only [readEntries, bind_eq_ok, Prod.exists]
  refine exists_congr fun key => exists_congr fun middle => and_congr_right fun _ => ?_
  -- what follows the value decides
  refine exists_congr fun value => exists_congr fun behind => and_congr_right fun _ => ?_
  split
  case h_1 heq => simp [heq, throw, throwThe, MonadExceptOf.throw]
  case h_2 tail heq => simp [heq, pure, Except.pure, and_comm, eq_comm]
  case h_3 tail heq =>
    split
    case h_1 next htail => simp [heq, htail, throw, throwThe, MonadExceptOf.throw]
    case h_2 hnot =>
      simp only [heq, bind_eq_ok, Prod.exists, pure, Except.pure, Except.ok.injEq,
        Prod.mk.injEq, List.cons.injEq, true_and, Char.reduceEq, false_and, false_or]
      constructor
      · rintro ⟨others, rest', hmore, rfl, rfl⟩
        exact ⟨tail, others, rfl, fun u => hnot u, hmore, rfl⟩
      · rintro ⟨_, others, rfl, -, hmore, rfl⟩
        exact ⟨others, rest, hmore, rfl, rfl⟩
  case h_4 hnil hclose hcomma =>
    simp only [throw, throwThe, MonadExceptOf.throw, reduceCtorEq, false_iff]
    rintro (⟨heq, -⟩ | ⟨next, _, heq, -⟩)
    · exact hclose _ heq
    · exact hcomma _ heq

/-- An object has no entries, or its first one is due. -/
theorem readObject_eq_ok (text : List Char) (value : Json) (rest : List Char) :
    readObject element text = .ok (value, rest) ↔
      (skipSpaces text = Mark.objectClose.char :: rest ∧ value = .object []) ∨
        ((∀ u, skipSpaces text ≠ Mark.objectClose.char :: u) ∧ ∃ entries,
          readEntries element (skipSpaces text).length (skipSpaces text) = .ok (entries, rest) ∧
            value = .object entries) := by
  unfold readObject
  split
  case h_1 heq => simp [heq, Mark.char, readEntries]
  case h_2 tail heq => simp [heq, Mark.char, and_comm, eq_comm]
  case h_3 hnot =>
    simp only [map_eq_ok, Prod.exists, Prod.mk.injEq, Mark.char]
    constructor
    · rintro ⟨entries, _, hentries, rfl, rfl⟩
      exact .inr ⟨fun u => hnot u, entries, hentries, rfl⟩
    · rintro (⟨heq, -⟩ | ⟨-, entries, hentries, rfl⟩)
      · exact absurd heq (hnot _)
      · exact ⟨entries, rest, hentries, rfl, rfl⟩

end

/-! ## Values -/

/-- White space in front of a value does not matter. -/
theorem readValue_skipSpaces (depth : Nat) (text : List Char) :
    readValue depth (skipSpaces text) = readValue depth text := by
  cases depth <;> simp [readValue, readValueWith, skipSpaces_skipSpaces]

/-- A token that is a value by itself: it is read as this value, whatever stands behind it and
however arrays and objects are read. -/
def Token.Scalar (token : Token) (value : Json) : Prop :=
  ∀ (array object : Reader Json) (behind : List Char), token.EndsAt behind →
    readValueWith array object (token.text ++ behind) = .ok (value, behind)

/-- No mark is a value. -/
theorem Token.Scalar.ne_mark {token : Token} {value : Json} (h : token.Scalar value) (m : Mark) :
    token ≠ .mark m := by
  rintro rfl
  let refused : Reader Json := fun text => .error (.here .valueExpected text)
  have hread := h refused refused [] trivial
  revert hread
  cases m <;> simp [Token.text, Mark.char, readValueWith, skipSpaces, isSpace, refused]

/-- A token that is a value starts one. -/
theorem Token.Scalar.startsValue {token : Token} {value : Json} (h : token.Scalar value) :
    token.startsValue = true := by
  cases token with
  | mark m => exact absurd rfl (h.ne_mark m)
  | quoted inside _ => rfl
  | word letters _ => rfl

/-- A token that is a value opens no bracket. -/
theorem Token.Scalar.nested {token : Token} {value : Json} (h : token.Scalar value) (depth : Nat) :
    Nested depth 0 [token] := by
  cases token with
  | mark m => exact absurd rfl (h.ne_mark m)
  | quoted inside _ => exact .single rfl rfl rfl
  | word letters _ => exact .single rfl rfl rfl

/-- The words `null`, `true` and `false`. -/
theorem scalar_word {first : Char} {word : List Char} {value : Json}
    (hword : IsWord (first :: word))
    (hreader : ∀ array object behind, readValueWith array object (first :: behind) =
      readWord word value behind) : (Token.word (first :: word) hword).Scalar value := by
  intro array object behind _
  exact (hreader array object _).trans (readWord_eq_ok.2 ⟨rfl, rfl⟩)

/-- A string is a scalar. -/
theorem scalar_quoted {inside : List Char} {s : String} (hinside : Enclosed inside)
    (hread : ∀ behind, Quoted.read (inside ++ '"' :: behind) = .ok (s, behind)) :
    (Token.quoted inside hinside).Scalar (.string s) := by
  intro array object behind _
  simp [Token.text, readValueWith, skipSpaces, isSpace, hread, Except.map]

/-- What starts with a sign or a digit is read as a number. -/
theorem readValueWith_number {array object : Reader Json} {c : Char} {text : List Char}
    (hc : c = '-' ∨ c.isDigit = true) :
    readValueWith array object (c :: text) =
      (Number.read (c :: text)).map fun (n, rest) => (.number n, rest) := by
  have hword : isWordChar c = true := by
    rcases hc with rfl | hc
    · decide
    · exact isWordChar_of_isDigit hc
  -- no other kind of value starts like a number
  have hother : ∀ d, d ≠ '-' → d.isDigit = false → c ≠ d := by
    rintro d hminus hdigit rfl
    rcases hc with rfl | hc
    · exact hminus rfl
    · rw [hdigit] at hc
      cases hc
  simp [readValueWith, skipSpaces, not_isSpace_of_isWordChar hword,
    hother '"' (by decide) (by decide), hother '[' (by decide) (by decide),
    hother '\x7b' (by decide) (by decide), hother 'n' (by decide) (by decide),
    hother 't' (by decide) (by decide), hother 'f' (by decide) (by decide), hc]

/-- A number is a scalar. -/
theorem scalar_number {letters : List Char} {n : Number} (hword : IsWord letters)
    (hfirst : ∀ c ∈ letters.head?, c = '-' ∨ c.isDigit = true)
    (hread : ∀ behind, AtBoundary behind → Number.read (letters ++ behind) = .ok (n, behind)) :
    (Token.word letters hword).Scalar (.number n) := by
  intro array object behind hbehind
  obtain ⟨c, tail, rfl⟩ := List.exists_cons_of_ne_nil hword.ne_nil
  have hletters : readValueWith array object (c :: (tail ++ behind)) = _ :=
    readValueWith_number (hfirst c rfl)
  rw [← List.cons_append, hread behind hbehind] at hletters
  exact hletters

/-- A word that starts with a sign or a digit is read as a number. -/
theorem Token.Scalar.number {letters : List Char} {hword : IsWord letters} {value : Json}
    (h : (Token.word letters hword).Scalar value)
    (hfirst : ∀ c ∈ letters.head?, c = '-' ∨ c.isDigit = true) :
    ∃ n, value = .number n ∧
      ∀ behind, AtBoundary behind → Number.read (letters ++ behind) = .ok (n, behind) := by
  obtain ⟨c, tail, rfl⟩ := List.exists_cons_of_ne_nil hword.ne_nil
  let refused : Reader Json := fun text => .error (.here .valueExpected text)
  have hread : ∀ behind, AtBoundary behind → ∃ n, value = .number n ∧
      Number.read (c :: tail ++ behind) = .ok (n, behind) := by
    intro behind hbehind
    have hvalue := (readValueWith_number (hfirst c rfl)).symm.trans
      (h refused refused behind hbehind)
    obtain ⟨⟨n, rest⟩, hn, hpair⟩ := map_eq_ok.1 hvalue
    obtain ⟨rfl, rfl⟩ := Prod.mk.inj hpair
    exact ⟨n, rfl, hn⟩
  -- the number does not depend on what is behind
  obtain ⟨n, rfl, -⟩ := hread [] (by simp [AtBoundary, Stops])
  refine ⟨n, rfl, fun behind hbehind => ?_⟩
  obtain ⟨m, hm, hread⟩ := hread behind hbehind
  rw [Json.number.inj hm, hread]

/-- Of the words, only numbers and `null`, `true` and `false` are read. -/
theorem Token.Scalar.word {letters : List Char} {hword : IsWord letters} {value : Json}
    (h : (Token.word letters hword).Scalar value) :
    (∃ n, value = .number n ∧
      ∀ behind, AtBoundary behind → Number.read (letters ++ behind) = .ok (n, behind)) ∨
    value = .null ∨ ∃ b, value = .boolean b := by
  obtain ⟨c, tail, rfl⟩ := List.exists_cons_of_ne_nil hword.ne_nil
  let refused : Reader Json := fun text => .error (.here .valueExpected text)
  by_cases hc : c = '-' ∨ c.isDigit = true
  · exact .inl (h.number (by simpa using hc))
  · right
    have hvalue := h refused refused [] (by simp [EndsAt, AtBoundary, Stops])
    have hchar : isWordChar c = true := hword.all c List.mem_cons_self
    -- of the characters that start a value, only letters can start the word
    have hne : ∀ d, isWordChar d = false → c ≠ d := fun d hd => ne_of_isWordChar hchar hd
    simp only [Token.text, List.append_nil, readValueWith, skipSpaces, List.dropWhile_cons,
      not_isSpace_of_isWordChar hchar, hne '"' (by decide), hne '[' (by decide),
      hne '\x7b' (by decide), if_false, hc, Bool.false_eq_true] at hvalue
    split at hvalue
    · exact .inl (readWord_eq_ok.1 hvalue).2
    · split at hvalue
      · exact .inr ⟨_, (readWord_eq_ok.1 hvalue).2⟩
      · split at hvalue
        · exact .inr ⟨_, (readWord_eq_ok.1 hvalue).2⟩
        · cases hvalue

/-- A token in quotes is read as a string. -/
theorem Token.Scalar.quoted {inside : List Char} {hinside : Enclosed inside} {value : Json}
    (h : (Token.quoted inside hinside).Scalar value) :
    ∃ s, value = .string s ∧
      ∀ behind, Quoted.read (inside ++ '"' :: behind) = .ok (s, behind) := by
  let refused : Reader Json := fun text => .error (.here .valueExpected text)
  have hread : ∀ behind, ∃ s, value = .string s ∧
      Quoted.read (inside ++ '"' :: behind) = .ok (s, behind) := by
    intro behind
    have hvalue := h refused refused behind trivial
    simp only [Token.text, List.cons_append, List.append_assoc, List.nil_append, readValueWith,
      skipSpaces, List.dropWhile_cons, show isSpace '"' = false by decide, if_true, if_false,
      Bool.false_eq_true] at hvalue
    obtain ⟨⟨s, rest⟩, hs, hpair⟩ := map_eq_ok.1 hvalue
    obtain ⟨rfl, rfl⟩ := Prod.mk.inj hpair
    exact ⟨s, rfl, hs⟩
  -- the string does not depend on what is behind
  obtain ⟨s, rfl, -⟩ := hread []
  refine ⟨s, rfl, fun behind => ?_⟩
  obtain ⟨s', hs, hread⟩ := hread behind
  rw [Json.string.inj hs, hread]

/-- A value is an array, an object or a scalar. -/
theorem readValueWith_cases {array object : Reader Json} {text rest : List Char} {value : Json}
    (h : readValueWith array object text = .ok (value, rest)) (hrest : AtBoundary rest) :
    (∃ tail, skipSpaces text = Mark.arrayOpen.char :: tail ∧
      array (Mark.arrayOpen.char :: tail) = .ok (value, rest)) ∨
    (∃ tail, skipSpaces text = Mark.objectOpen.char :: tail ∧
      object (Mark.objectOpen.char :: tail) = .ok (value, rest)) ∨
    ∃ token : Token, token.Scalar value ∧ skipSpaces text = token.text ++ rest ∧
      token.EndsAt rest := by
  unfold readValueWith at h
  split at h
  case h_1 => cases h
  case h_2 c tail htext =>
    by_cases hquote : c = '"'
    · subst hquote
      rcases map_eq_ok.1 (by simpa using h) with ⟨⟨s, behind⟩, hread, hpair⟩
      rcases Prod.mk.inj hpair with ⟨rfl, rfl⟩
      rcases Quoted.read_token hread with ⟨inside, hinside, rfl, hreads⟩
      exact .inr (.inr ⟨.quoted inside hinside, scalar_quoted hinside hreads,
        by simp [htext, Token.text], trivial⟩)
    by_cases hbracket : c = '['
    · subst hbracket
      exact .inl ⟨tail, htext, by simpa [Mark.char] using h⟩
    by_cases hbrace : c = '\x7b'
    · subst hbrace
      exact .inr (.inl ⟨tail, htext, by simpa [Mark.char] using h⟩)
    -- the three words are read alike
    have hletters : ∀ {first : Char} {word : List Char} {v : Json} (hword : IsWord (first :: word)),
        (∀ array object behind, readValueWith array object (first :: behind) =
          readWord word v behind) → skipSpaces text = first :: tail →
        readWord word v tail = .ok (value, rest) →
        ∃ token : Token, token.Scalar value ∧ skipSpaces text = token.text ++ rest ∧
          token.EndsAt rest := by
      intro first word v hword hreader htext hread
      obtain ⟨rfl, rfl⟩ := readWord_eq_ok.1 hread
      exact ⟨.word (first :: word) hword, scalar_word hword hreader, htext, hrest⟩
    by_cases hnull : c = 'n'
    · subst hnull
      exact .inr (.inr (hletters ⟨by simp, List.all_eq_true.1 rfl⟩ (fun _ _ behind => rfl) htext
        (by simpa using h)))
    by_cases htrue : c = 't'
    · subst htrue
      exact .inr (.inr (hletters ⟨by simp, List.all_eq_true.1 rfl⟩ (fun _ _ behind => rfl) htext
        (by simpa using h)))
    by_cases hfalse : c = 'f'
    · subst hfalse
      exact .inr (.inr (hletters ⟨by simp, List.all_eq_true.1 rfl⟩ (fun _ _ behind => rfl) htext
        (by simpa using h)))
    simp only [hquote, hbracket, hbrace, hnull, htrue, hfalse, if_false] at h
    by_cases hnumber : c = '-' ∨ c.isDigit = true
    · rw [if_pos hnumber] at h
      rcases map_eq_ok.1 h with ⟨⟨n, behind⟩, hread, hpair⟩
      rcases Prod.mk.inj hpair with ⟨rfl, rfl⟩
      rcases Number.read_token hread with ⟨letters, hletters, hsplit, hreads⟩
      -- the number starts with the character that was looked at
      have hfirst : ∀ d ∈ letters.head?, d = '-' ∨ d.isDigit = true := by
        intro d hd
        have hsame : (letters ++ behind).head? = some d := List.mem_head?_append_of_mem_head? hd
        rw [← hsplit] at hsame
        rwa [← Option.some.inj hsame]
      exact .inr (.inr ⟨.word letters hletters, scalar_number hletters hfirst hreads,
        htext.trans hsplit, hrest⟩)
    · rw [if_neg hnumber] at h
      cases h

end XrManifest.Json
