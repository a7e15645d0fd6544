import XrManifest.Proofs.Cpp.Literals
import XrManifest.Proofs.Cpp.Spelling

/-!
# Parsing lines

A parser for the lines of a header, which knows nothing of how they are written. It takes a
text apart from left to right: operands, values, declarations, statements and the starts of
branches. The main statements are `Declaration.parse_text`, `Statement.parse_text` and
`Guard.parse_text`: the text of plain code is parsed into the tree that it was written from.
-/

namespace XrManifest.Cpp

/-! ## Operands -/

/-- A variable with the members that stand behind the points of a word. -/
def parseMembers (word : List Char) : Operand :=
  match _h : cutLast '.' word with
  | some (object, name) => .field (parseMembers object) (.ofList name)
  | none => .word (.ofList word)
termination_by word.length
decreasing_by exact length_of_cutLast _h

/-- The operand of a word. The point of a number belongs to the number. -/
def parseWord (word : List Char) : Operand :=
  if startsWithDigit word then .word (.ofList word) else parseMembers word

def parseLiteral (text : List Char) : Option (Operand × List Char) := do
  let (literal, rest) ← lexLiteral text
  let inside ← unescape literal.tail.dropLast
  return (.literal (.ofList inside), rest)

/-- Takes a number in brackets from the front of a text, of which the first bracket is gone. -/
def parseIndex (text : List Char) : Option (Nat × List Char) :=
  let digits := text.takeWhile Char.isDigit
  match text.dropWhile Char.isDigit with
  | ']' :: rest => if digits = [] then none else some (Nat.ofDigitChars 10 digits 0, rest)
  | _ => none

def parseOperand (text : List Char) : Option (Operand × List Char) :=
  if text.head? = some '"' then parseLiteral text
  else if text.head? = some '&' then
    some (.address (.ofList (text.tail.takeWhile inName)), text.tail.dropWhile inName)
  else
    let word := text.takeWhile inWord
    let rest := text.dropWhile inWord
    if rest.head? = some '[' then do
      let (index, rest) ← parseIndex rest.tail
      return (.entry (.ofList word) index, rest)
    else some (parseWord word, rest)

/-- The characters that can stand behind an operand. -/
def stops : List Char := [' ', '(', ')', ',', ';', '\x7d']

/-- What is behind an operand does not go on with it. -/
def Stops (rest : List Char) : Prop := ∀ c ∈ rest.head?, c ∈ stops

theorem stops_cons {c : Char} (hc : c ∈ stops) (rest : List Char) : Stops (c :: rest) := by
  rintro d ⟨⟩
  exact hc

section
variable {rest : List Char}

/-- A variable is found with all of its members, and none of this is taken for a number. -/
theorem parseMembers_object {operand : Operand} (h : operand.IsObject) :
    parseMembers operand.text.toList = operand ∧ operand.text.toList.all inWord = true ∧
      startsWithDigit operand.text.toList = false := by
  induction operand with
  | word name =>
    refine ⟨?_, List.all_eq_true.2 fun _ hc => inWord_of_inName (h.1.mem hc), h.2⟩
    have hcut : cutLast '.' name.toList = none := cutLast_of_not_mem (h.1.not_mem (by decide))
    rw [Operand.text, parseMembers]
    split
    · rename_i hsome
      rw [hcut] at hsome
      cases hsome
    · rw [String.ofList_toList]
  | field object name ih =>
    -- the last point is in front of the last member, so the object is found by induction
    obtain ⟨hparse, hall, hdigit⟩ := ih h.1
    have htext : (Operand.field object name).text.toList =
        object.text.toList ++ '.' :: name.toList := by
      simp [Operand.text]
    have hcut : cutLast '.' (object.text.toList ++ '.' :: name.toList) =
        some (object.text.toList, name.toList) := cutLast_append _ (h.2.not_mem (by decide))
    rw [htext]
    refine ⟨?_, ?_, ?_⟩
    · rw [parseMembers]
      split
      · rename_i hsome
        rw [hcut] at hsome
        obtain ⟨rfl, rfl⟩ := Prod.mk.inj (Option.some.inj hsome)
        rw [hparse, String.ofList_toList]
      · rename_i hnone
        rw [hcut] at hnone
        cases hnone
    · have hname : name.toList.all inWord = true :=
        List.all_eq_true.2 fun _ hc => inWord_of_inName (h.2.mem hc)
      simpa [hall, hname] using (by decide : inWord '.' = true)
    · unfold startsWithDigit at hdigit ⊢
      cases hobject : object.text.toList with
      | nil => rfl
      | cons c rest => simpa [hobject] using hdigit
  | _ => exact h.elim

/-- Names and numbers are words without members. -/
theorem parseWord_word {spelling : String} (h : IsName spelling ∨ IsNumeral spelling) :
    parseWord spelling.toList = .word spelling := by
  unfold parseWord
  split
  · rw [String.ofList_toList]
  · rename_i hdigit
    rcases h with hname | hnumeral
    · have hobject : (Operand.word spelling).IsObject := ⟨hname, by simpa using hdigit⟩
      exact (parseMembers_object hobject).1
    · exact absurd hnumeral.1 hdigit

/-- Of a literal the text between its quotes is found, without the escapes. -/
theorem parseLiteral_text (text : String) (rest : List Char) :
    parseLiteral ((stringLiteral text).toList ++ rest) = some (.literal text, rest) := by
  have hinside : (stringLiteral text).toList.tail.dropLast = escaped text.toList := by
    simp [toList_stringLiteral]
  simp [parseLiteral, lexLiteral_stringLiteral, hinside, unescape_escaped]

/-- An index is found up to its bracket. -/
theorem parseIndex_text (index : Nat) (rest : List Char) :
    parseIndex ((toString index).toList ++ ']' :: rest) = some (index, rest) := by
  have hdigits : (toString index).toList.all Char.isDigit = true := by
    rw [toList_toString_nat, List.all_eq_true]
    exact fun c hc => Nat.isDigit_of_mem_toDigits (by decide) (by decide) hc
  have hmark : ∀ c ∈ (']' :: rest).head?, c.isDigit = false := by simp
  rw [parseIndex, dropWhile_cut hdigits hmark, takeWhile_cut hdigits hmark, toList_toString_nat]
  exact (if_neg Nat.toDigits_ne_nil).trans (by rw [Nat.ofDigitChars_ten_toDigits])

/-- Neither a word nor what stops it starts like something else. -/
theorem head?_word_append {front : List Char} {c : Char} (hfront : front.all inWord = true)
    (hc : inWord c = false) (hrest : rest.head? ≠ some c) : (front ++ rest).head? ≠ some c := by
  cases front with
  | nil => exact hrest
  | cons first front =>
    rintro ⟨⟩
    rw [List.all_cons, hc] at hfront
    cases hfront

theorem Stops.head?_ne {c : Char} (h : Stops rest) (hc : c ∉ stops) : rest.head? ≠ some c :=
  fun hhead => hc (h c hhead)

/-- No character of a word stands where an operand stops. -/
theorem Stops.not_inWord (h : Stops rest) : ∀ c ∈ rest.head?, inWord c = false := by
  have hnone : stops.any inWord = false := by decide
  intro c hc
  simpa using List.any_eq_false.1 hnone c (h c hc)

/-- A word is parsed up to where it stops. -/
theorem parseOperand_word {word : List Char} (hword : word.all inWord = true) (h : Stops rest) :
    parseOperand (word ++ rest) = some (parseWord word, rest) := by
  have hquote := head?_word_append hword (by decide) (h.head?_ne (by decide : '"' ∉ stops))
  have haddress := head?_word_append hword (by decide) (h.head?_ne (by decide : '&' ∉ stops))
  have hbracket : rest.head? ≠ some '[' := h.head?_ne (by decide)
  rw [parseOperand, if_neg hquote, if_neg haddress, dropWhile_cut hword h.not_inWord,
    takeWhile_cut hword h.not_inWord]
  exact if_neg hbracket

theorem IsName.all_inWord {name : String} (h : IsName name) : name.toList.all inWord = true :=
  List.all_eq_true.2 fun _ hc => inWord_of_inName (h.mem hc)

/-- The operand is found where it stops, whatever stands behind it. -/
theorem parseOperand_text {operand : Operand} (h : operand.Plain) (hrest : Stops rest) :
    parseOperand (operand.text.toList ++ rest) = some (operand, rest) := by
  cases operand with
  | word spelling =>
    have hword : spelling.toList.all inWord = true :=
      Or.elim h IsName.all_inWord And.right
    rw [Operand.text, parseOperand_word hword hrest, parseWord_word h]
  | literal text =>
    have hquote : ((stringLiteral text).toList ++ rest).head? = some '"' := by
      simp [toList_stringLiteral]
    rw [Operand.text, parseOperand, if_pos hquote, parseLiteral_text]
  | address name =>
    have htext : (Operand.address name).text.toList ++ rest = '&' :: (name.toList ++ rest) := by
      simp [Operand.text]
    have hmark : ∀ c ∈ rest.head?, inName c = false := by
      intro c hc
      have hword := hrest.not_inWord c hc
      rw [inWord, Bool.or_eq_false_iff] at hword
      exact hword.1
    rw [htext, parseOperand, if_neg (by simp), List.head?_cons, if_pos rfl, List.tail_cons,
      takeWhile_cut h hmark, dropWhile_cut h hmark, String.ofList_toList]
  | field object name =>
    have hobject : (Operand.field object name).IsObject := h
    obtain ⟨hparse, hword, hdigit⟩ := parseMembers_object hobject
    rw [parseOperand_word hword hrest, parseWord, hdigit, if_neg Bool.false_ne_true, hparse]
  | entry table index =>
    have htext : (Operand.entry table index).text.toList ++ rest =
        table.toList ++ '[' :: ((toString index).toList ++ ']' :: rest) := by
      simp [Operand.text]
    have hword : table.toList.all inWord = true := IsName.all_inWord h
    have hmark : ∀ c ∈ ('[' :: ((toString index).toList ++ ']' :: rest)).head?,
        inWord c = false := by
      rintro c ⟨⟩
      decide
    have hbracket : ∀ c, c ≠ '[' → inWord c = false →
        (table.toList ++ '[' :: ((toString index).toList ++ ']' :: rest)).head? ≠ some c :=
      fun c hne hc => head?_word_append hword hc fun heq => hne (Option.some.inj heq).symm
    have hquote := hbracket '"' (by decide) (by decide)
    have haddress := hbracket '&' (by decide) (by decide)
    rw [htext, parseOperand, if_neg hquote, if_neg haddress, dropWhile_cut hword hmark,
      takeWhile_cut hword hmark]
    simp only [List.head?_cons, if_true, List.tail_cons, parseIndex_text]
    rw [String.ofList_toList]
    rfl

end

/-! ## Lists of operands -/

/-- Takes operands with commas between them from the front of a text, up to `close`. -/
def parseOperands (close : Char) (text : List Char) : Option (List Operand × List Char) := do
  let (operand, rest) ← parseOperand text
  if rest.head? = some close then return ([operand], rest.tail)
  let next ← rest.dropPrefix? [',', ' ']
  -- what is behind an operand is always shorter
  if next.length < text.length then
    let (operands, rest) ← parseOperands close next
    return (operand :: operands, rest)
  else none
termination_by text.length

/-- Takes a list that may be empty from the front of a text, up to `close`. -/
def parseItems (close : Char) (text : List Char) : Option (List Operand × List Char) :=
  if text.head? = some close then some ([], text.tail) else parseOperands close text

section
variable {close : Char} {rest : List Char}

/-- By induction on the operands: each stops at a comma, and the last at `close`. -/
theorem parseOperands_text (hclose : close ∈ stops) (hcomma : close ≠ ',') {items : List Operand}
    (hitems : ∀ operand ∈ items, operand.Plain) (hne : items ≠ []) :
    parseOperands close ((commaSeparated (items.map Operand.text)).toList ++ close :: rest) =
      some (items, rest) := by
  induction items with
  | nil => exact absurd rfl hne
  | cons operand others ih =>
    obtain ⟨hoperand, hothers⟩ := List.forall_mem_cons.1 hitems
    cases others with
    | nil =>
      simp only [List.map_cons, List.map_nil, commaSeparated]
      rw [parseOperands, parseOperand_text hoperand (stops_cons hclose rest)]
      simp
    | cons second others =>
      have htext : (commaSeparated ((operand :: second :: others).map Operand.text)).toList =
          operand.text.toList ++ ',' :: ' ' ::
            (commaSeparated ((second :: others).map Operand.text)).toList := by
        simp [commaSeparated]
      -- what is behind the comma is shorter, so the parser goes on
      have hnext := ih hothers (List.cons_ne_nil _ _)
      rw [htext, List.append_assoc, List.cons_append, List.cons_append]
      generalize (commaSeparated ((second :: others).map Operand.text)).toList ++ close :: rest =
        next at hnext ⊢
      rw [parseOperands, parseOperand_text hoperand (stops_cons (by decide) _)]
      simp only [Option.bind_eq_bind, Option.bind_some, List.head?_cons, Option.some.injEq,
        Ne.symm hcomma, if_false, List.dropPrefix?, BEq.rfl, if_true]
      rw [if_pos, hnext]
      · rfl
      · simp only [List.length_append, List.length_cons]
        omega

/-- The text of an operand starts with a character of its own, unless it is an empty word. -/
theorem Operand.Plain.head?_text {operand : Operand} (h : operand.Plain)
    (hne : operand ≠ .word "") :
    ∃ c, operand.text.toList.head? = some c ∧ (inWord c = true ∨ c ∈ ['"', '&', '[']) := by
  -- a word in front of a mark may be empty, and then the mark comes first
  have hcons : ∀ (front : List Char) (c : Char) (rest : List Char), front.all inWord = true →
      inWord c = true ∨ c ∈ ['"', '&', '['] →
      ∃ d, (front ++ c :: rest).head? = some d ∧ (inWord d = true ∨ d ∈ ['"', '&', '[']) := by
    intro front c rest hfront hc
    cases front with
    | nil => exact ⟨c, rfl, hc⟩
    | cons d front => exact ⟨d, rfl, .inl (List.all_eq_true.1 hfront d List.mem_cons_self)⟩
  cases operand with
  | word spelling =>
    have hword : spelling.toList.all inWord = true := Or.elim h IsName.all_inWord And.right
    have hlist : spelling.toList ≠ [] := by
      intro hnil
      exact hne (congrArg Operand.word (String.toList_eq_nil_iff.1 hnil))
    obtain ⟨c, rest, htext⟩ := List.exists_cons_of_ne_nil hlist
    rw [htext, List.all_cons, Bool.and_eq_true] at hword
    exact ⟨c, by rw [Operand.text, htext]; rfl, .inl hword.1⟩
  | literal text => exact ⟨'"', by simp [Operand.text, toList_stringLiteral], by decide⟩
  | address name => exact ⟨'&', by simp [Operand.text], by decide⟩
  | field object name =>
    have hobject := (parseMembers_object h.1).2.1
    have hfield := hcons object.text.toList '.' name.toList hobject (by decide)
    simpa [Operand.text] using hfield
  | entry table index =>
    have hentry := hcons table.toList '[' ((toString index).toList ++ [']'])
      (IsName.all_inWord h) (by decide)
    simpa [Operand.text] using hentry

/-- No operands at all are told from an operand, which never starts with `close`. -/
theorem parseItems_text (hclose : close ∈ stops) (hcomma : close ≠ ',') {items : List Operand}
    (h : PlainItems items) :
    parseItems close ((commaSeparated (items.map Operand.text)).toList ++ close :: rest) =
      some (items, rest) := by
  cases items with
  | nil => exact if_pos rfl
  | cons operand others =>
    have hplain : operand.Plain := h.each operand List.mem_cons_self
    have hne : operand ≠ .word "" := fun heq => h.first (congrArg some heq)
    obtain ⟨c, hhead, hc⟩ := hplain.head?_text hne
    have hfirst : (commaSeparated ((operand :: others).map Operand.text)).toList.head? =
        some c := by
      cases others with
      | nil => exact hhead
      | cons => simp [commaSeparated, hhead]
    -- where a list can stop, no operand starts
    have hother : c ≠ close := by
      rintro rfl
      have hnone : stops.any (fun d => inWord d || d ∈ ['"', '&', '[']) = false := by decide
      exact List.any_eq_false.1 hnone c hclose (by simpa using hc)
    have hhead : ((commaSeparated ((operand :: others).map Operand.text)).toList ++
        close :: rest).head? = some c := by
      rw [List.head?_append, hfirst]
      rfl
    rw [parseItems, hhead, if_neg (fun heq => hother (Option.some.inj heq)),
      parseOperands_text hclose hcomma h.each (List.cons_ne_nil _ _)]

end

/-! ## Values -/

def parseValue (text : List Char) : Option (Value × List Char) :=
  if text.head? = some '\x7b' then do
    let (items, rest) ← parseItems '\x7d' text.tail
    return (.braces items, rest)
  else do
    let (operand, rest) ← parseOperand text
    if rest.head? = some '(' then
      match operand with
      | .word function => do
        let (arguments, rest) ← parseItems ')' rest.tail
        return (.call function arguments, rest)
      | _ => none
    else return (.operand operand, rest)

/-- The value at the end of a line. -/
def parseLastValue (text : List Char) : Option Value := do
  let (value, rest) ← parseValue text
  if rest = [';'] then return value else none

section
variable {rest : List Char}

/-- A bracket behind a name makes it a call. -/
theorem parseValue_call {function : String} {arguments : List Operand}
    (hfunction : IsName function) (harguments : PlainItems arguments) :
    parseValue ((callText function arguments).toList ++ rest) =
      some (.call function arguments, rest) := by
  have htext : (callText function arguments).toList ++ rest =
      function.toList ++ '(' ::
        ((commaSeparated (arguments.map Operand.text)).toList ++ ')' :: rest) := by
    simp [callText]
  have hstops : ∀ more, Stops ('(' :: more) := stops_cons (by decide)
  have hbrace : (function.toList ++ '(' ::
      ((commaSeparated (arguments.map Operand.text)).toList ++ ')' :: rest)).head? ≠
        some '\x7b' :=
    head?_word_append hfunction.all_inWord (by decide) ((hstops _).head?_ne (by decide))
  rw [htext, parseValue, if_neg hbrace, parseOperand_word hfunction.all_inWord (hstops _),
    parseWord_word (.inl hfunction)]
  simp only [Option.bind_eq_bind, Option.bind_some, List.head?_cons, if_true, List.tail_cons]
  rw [parseItems_text (by decide) (by decide) harguments]
  rfl

/-- Without a bracket behind it an operand is a value. -/
theorem parseValue_operand {operand : Operand} (h : operand.Plain) (hrest : Stops rest)
    (hopen : rest.head? ≠ some '(') :
    parseValue (operand.text.toList ++ rest) = some (.operand operand, rest) := by
  have hbrace : (operand.text.toList ++ rest).head? ≠ some '\x7b' := by
    by_cases hempty : operand = .word ""
    · rw [hempty]
      exact hrest.head?_ne (by decide)
    · obtain ⟨c, hhead, hc⟩ := h.head?_text hempty
      rw [List.head?_append, hhead]
      rintro ⟨⟩
      revert hc
      decide
  rw [parseValue, if_neg hbrace, parseOperand_text h hrest]
  exact if_neg hopen

/-- The value is found where it stops, whatever stands behind it. -/
theorem parseValue_text {value : Value} (h : value.Plain) (hrest : Stops rest)
    (hopen : rest.head? ≠ some '(') :
    parseValue (value.text.toList ++ rest) = some (value, rest) := by
  cases value with
  | operand item => exact parseValue_operand h hrest hopen
  | call function arguments => exact parseValue_call h.1 h.2
  | braces items =>
    have htext : (Value.braces items).text.toList ++ rest =
        '\x7b' :: ((commaSeparated (items.map Operand.text)).toList ++ '\x7d' :: rest) := by
      simp [Value.text, inBraces]
    rw [htext, parseValue, List.head?_cons, if_pos rfl, List.tail_cons,
      parseItems_text (by decide) (by decide) h]
    rfl

theorem parseLastValue_text {value : Value} (h : value.Plain) :
    parseLastValue (value.text.toList ++ [';']) = some value := by
  have hstops : Stops [';'] := stops_cons (by decide) []
  rw [parseLastValue, parseValue_text h hstops (by decide)]
  rfl

end

/-! ## Declarations -/

/-- The characters that end the name of a declaration. -/
def heads : List Char := ['\x7b', '[', '=', ';']

def parseName (text : List Char) : Option String :=
  if text.all inName then some (.ofList text) else none

/-- The type and the name that a text declares. The name is the last word. -/
def parseHead (text : List Char) : Option (String × String) := do
  let (type, name) ← cutLast ' ' text
  if type.all inType then return (.ofList type, ← parseName name) else none

/-- The declaration that a line makes. -/
def Declaration.parse (text : List Char) : Option Declaration := do
  let head := text.takeWhile (· ∉ heads)
  match text.dropWhile (· ∉ heads) with
  | [';'] =>
    let (type, name) ← parseHead head
    return .plain type name
  | '\x7b' :: rest =>
    let (type, name) ← parseHead head
    if rest.dropWhile inName = ['\x7d', ';'] then
      return .tagged type name (.ofList (rest.takeWhile inName))
    else none
  | '=' :: ' ' :: rest =>
    let (type, name) ← parseHead head.dropLast
    return .preset type name (← parseLastValue rest)
  -- without a length in the brackets the elements are listed
  | '[' :: rest =>
    if rest.head? = some ']' then
      let (type, name) ← parseHead (← head.dropPrefix? "const ".toList)
      let (elements, rest) ← parseItems ' ' (← rest.dropPrefix? "] = \x7b ".toList)
      if rest = ['\x7d', ';'] then return .listed type name elements else none
    else
      let (type, name) ← parseHead head
      let (length, rest) ← parseIndex rest
      if rest = [';'] then return .sized type name length else none
  | _ => none

section
variable {type name : String} {rest : List Char}

/-- The type and the name of a declaration have no mark that ends them. -/
theorem all_head (htype : IsType type) (hname : IsName name) :
    (type.toList ++ ' ' :: name.toList).all (· ∉ heads) = true := by
  have hheads : heads.any inType = false := by decide
  have hpart : ∀ {text : String}, IsType text → text.toList.all (· ∉ heads) = true := by
    intro text htext
    rw [List.all_eq_true]
    intro c hc
    simp only [decide_eq_true_eq]
    intro hmem
    exact List.any_eq_false.1 hheads c hmem (List.all_eq_true.1 htext c hc)
  rw [List.all_append, List.all_cons, hpart htype, hpart hname.isType]
  rfl

/-- A text is cut at the first mark that ends the head of a declaration. -/
theorem cut_head {head : List Char} (hhead : head.all (· ∉ heads) = true) {mark : Char}
    (hmark : mark ∈ heads) (rest : List Char) :
    (head ++ mark :: rest).takeWhile (· ∉ heads) = head ∧
      (head ++ mark :: rest).dropWhile (· ∉ heads) = mark :: rest := by
  have hstop : ∀ c ∈ (mark :: rest).head?, decide (c ∉ heads) = false := by
    rintro c ⟨⟩
    simpa using hmark
  exact ⟨takeWhile_cut hhead hstop, dropWhile_cut hhead hstop⟩

/-- A type may have spaces in it, but a name has none. -/
theorem cutLast_head (type : String) (hname : IsName name) :
    cutLast ' ' (type.toList ++ ' ' :: name.toList) = some (type.toList, name.toList) :=
  cutLast_append _ (hname.not_mem (by decide))

theorem parseName_text (hname : IsName name) : parseName name.toList = some name := by
  have hchecked : name.toList.all inName = true := hname
  rw [parseName, if_pos hchecked, String.ofList_toList]

theorem parseHead_text (htype : IsType type) (hname : IsName name) :
    parseHead (type.toList ++ ' ' :: name.toList) = some (type, name) := by
  have hchecked : type.toList.all inType = true := htype
  simp only [parseHead, cutLast_head type hname, Option.bind_eq_bind, Option.bind_some,
    if_pos hchecked, parseName_text hname, String.ofList_toList]
  rfl

end

/-- The mark behind the name tells what kind of declaration it is. -/
theorem Declaration.parse_text {declaration : Declaration} (h : declaration.Plain) :
    Declaration.parse declaration.text.toList = some declaration := by
  cases declaration with
  | plain type name =>
    obtain ⟨htype, hname⟩ := h
    have htext : (Declaration.plain type name).text.toList =
        (type.toList ++ ' ' :: name.toList) ++ [';'] := by
      simp [Declaration.text]
    obtain ⟨htake, hdrop⟩ := cut_head (all_head htype.1 hname) (by decide : ';' ∈ heads) []
    rw [htext, Declaration.parse, htake, hdrop]
    simp [parseHead_text htype.1 hname]
  | tagged type name tag =>
    obtain ⟨htype, hname, htag⟩ := h
    have htext : (Declaration.tagged type name tag).text.toList =
        (type.toList ++ ' ' :: name.toList) ++ '\x7b' :: (tag.toList ++ ['\x7d', ';']) := by
      simp [Declaration.text, inBraces]
    obtain ⟨htake, hdrop⟩ := cut_head (all_head htype.1 hname) (by decide : '\x7b' ∈ heads) _
    have hmark : ∀ c ∈ ['\x7d', ';'].head?, inName c = false := by
      rintro c ⟨⟩
      decide
    rw [htext, Declaration.parse, htake, hdrop]
    simp [parseHead_text htype.1 hname, takeWhile_cut htag hmark, dropWhile_cut htag hmark]
  | preset type name value =>
    obtain ⟨htype, hname, hvalue⟩ := h
    -- the head has the space in front of the sign at its end
    have htext : (Declaration.preset type name value).text.toList =
        ((type.toList ++ ' ' :: name.toList) ++ [' ']) ++
          '=' :: ' ' :: (value.text.toList ++ [';']) := by
      simp [Declaration.text]
    have hhead : ((type.toList ++ ' ' :: name.toList) ++ [' ']).all (· ∉ heads) = true := by
      rw [List.all_append, all_head htype.1 hname]
      decide
    obtain ⟨htake, hdrop⟩ := cut_head hhead (by decide : '=' ∈ heads) _
    rw [htext, Declaration.parse, htake, hdrop]
    simp only [List.dropLast_concat, parseHead_text htype.1 hname, parseLastValue_text hvalue,
      Option.bind_eq_bind, Option.bind_some]
    rfl
  | sized type name length =>
    obtain ⟨htype, hname⟩ := h
    have htext : (Declaration.sized type name length).text.toList =
        (type.toList ++ ' ' :: name.toList) ++
          '[' :: ((toString length).toList ++ ']' :: [';']) := by
      simp [Declaration.text]
    have hdigit : ((toString length).toList ++ ']' :: [';']).head? ≠ some ']' := by
      have hne : (toString length).toList ≠ [] := toList_toString_nat length ▸ Nat.toDigits_ne_nil
      obtain ⟨c, digits, hdigits⟩ := List.exists_cons_of_ne_nil hne
      have hc : inName c = true := (isName_nat length).mem (hdigits ▸ List.mem_cons_self)
      rw [hdigits]
      rintro ⟨⟩
      revert hc
      decide
    obtain ⟨htake, hdrop⟩ := cut_head (all_head htype.1 hname) (by decide : '[' ∈ heads) _
    rw [htext, Declaration.parse, htake, hdrop]
    simp only [if_neg hdigit, parseHead_text htype.1 hname, parseIndex_text, Option.bind_eq_bind,
      Option.bind_some]
    rfl
  | listed type name elements =>
    obtain ⟨htype, hname, helements⟩ := h
    have htext : (Declaration.listed type name elements).text.toList =
        ("const ".toList ++ (type.toList ++ ' ' :: name.toList)) ++ '[' :: ("] = \x7b ".toList ++
          ((commaSeparated (elements.map Operand.text)).toList ++ ' ' :: ['\x7d', ';'])) := by
      simp [Declaration.text, inBraces]
    have hhead : ("const ".toList ++ (type.toList ++ ' ' :: name.toList)).all (· ∉ heads) =
        true := by
      rw [List.all_append, all_head htype hname]
      decide
    obtain ⟨htake, hdrop⟩ := cut_head hhead (by decide : '[' ∈ heads) _
    have hclose : ("] = \x7b ".toList ++ ((commaSeparated (elements.map Operand.text)).toList ++
        ' ' :: ['\x7d', ';'])).head? = some ']' := rfl
    have hitems : parseItems ' ' ((commaSeparated (elements.map Operand.text)).toList ++
        ' ' :: ['\x7d', ';']) = some (elements, ['\x7d', ';']) :=
      parseItems_text (by decide) (by decide) helements
    rw [htext, Declaration.parse, htake, hdrop]
    simp only [if_pos hclose, dropPrefix?_append, parseHead_text htype hname, Option.bind_eq_bind,
      Option.bind_some, hitems]
    rfl

/-! ## Statements -/

/-- What stands behind `return`: a value, or the default value with a remark behind it. -/
def parseReturn (text : List Char) : Option Statement := do
  let (value, rest) ← parseValue text
  if rest = [';'] then return .returns value
  else if value = .braces [] then
    let remark ← rest.dropPrefix? "; // ".toList
    return .returnsDefault (.ofList remark)
  else none

/-- The statement that a line makes. Where a value comes first, what is behind it tells what it
is for; where a name and a space do, the line may be a declaration. -/
def Statement.parse (text : List Char) : Option Statement := do
  let (value, rest) ← parseValue text
  match value with
  | .call function arguments =>
    if rest = [';'] then return .call function arguments
    else if function = "" ∧ arguments = [.word "void"] then
      match ← parseLastValue rest with
      | .call function arguments => return .discard function arguments
      | _ => none
    else none
  | .operand target =>
    if target = .word "return" then parseReturn (← rest.dropPrefix? [' '])
    else match rest.dropPrefix? " = ".toList with
      | some rest => return .assign target (← parseLastValue rest)
      | none => return .declare (← Declaration.parse text)
  | .braces _ => none

/-- The line of a declaration starts with a name and a space, and no sign of an assignment is
behind them. -/
theorem Declaration.Plain.starts_name {declaration : Declaration} (h : declaration.Plain)
    (htype : IsName declaration.type) (hreturn : declaration.type ≠ "return") :
    ∃ word rest, declaration.text.toList = word.toList ++ ' ' :: rest ∧ IsName word ∧
      word ≠ "return" ∧ rest.head? ≠ some '=' := by
  have hsign : ∀ {name : String} {more : List Char}, IsName name → more.head? ≠ some '=' →
      (name.toList ++ more).head? ≠ some '=' :=
    fun hname hmore => head?_word_append hname.all_inWord (by decide) hmore
  cases declaration with
  | plain type name =>
    refine ⟨type, name.toList ++ [';'], by simp [Declaration.text], htype, hreturn, ?_⟩
    exact hsign h.2 (by decide)
  | tagged type name tag =>
    refine ⟨type, name.toList ++ '\x7b' :: (tag.toList ++ ['\x7d', ';']), ?_, htype, hreturn, ?_⟩
    · simp [Declaration.text, inBraces]
    · exact hsign h.2.1 (by simp)
  | preset type name value =>
    refine ⟨type, name.toList ++ ' ' :: '=' :: ' ' :: (value.text.toList ++ [';']), ?_, htype,
      hreturn, ?_⟩
    · simp [Declaration.text]
    · exact hsign h.2.1 (by simp)
  | sized type name length =>
    refine ⟨type, name.toList ++ '[' :: ((toString length).toList ++ [']', ';']), ?_, htype,
      hreturn, ?_⟩
    · simp [Declaration.text]
    · exact hsign h.2 (by simp)
  | listed type name elements =>
    -- the type of a constant array is its second word
    have hconst : IsName "const" := by decide
    refine ⟨"const", type.toList ++ ' ' :: (name.toList ++ "[] = ".toList ++
      (inBraces (" " ++ commaSeparated (elements.map Operand.text) ++ " ")).toList ++ [';']), ?_,
      hconst, by decide, ?_⟩
    · simp [Declaration.text]
    · exact hsign htype (by simp)

theorem parseValue_word {word : String} (hword : IsName word) (rest : List Char) :
    parseValue (word.toList ++ ' ' :: rest) = some (.operand (.word word), ' ' :: rest) := by
  have hplain : (Operand.word word).Plain := .inl hword
  have hspace : Stops (' ' :: rest) := stops_cons (by decide) rest
  exact parseValue_operand hplain hspace (by simp)

/-- The line of a statement is parsed into the statement. -/
theorem Statement.parse_text {statement : Statement} (h : statement.Plain) :
    Statement.parse statement.text.toList = some statement := by
  cases statement with
  | declare declaration =>
    obtain ⟨hplain, htype, hreturn⟩ := h
    obtain ⟨word, rest, htext, hword, hne, hsign⟩ := hplain.starts_name htype hreturn
    have hnone : (' ' :: rest).dropPrefix? " = ".toList = none := by
      cases rest with
      | nil => rfl
      | cons c rest =>
        have hc : c ≠ '=' := by simpa using hsign
        simp [List.dropPrefix?, hc]
    have hoperand : Operand.word word ≠ .word "return" := by simpa using hne
    have hparse := Declaration.parse_text hplain
    rw [htext] at hparse
    rw [Statement.text, htext, Statement.parse, parseValue_word hword]
    simp only [Option.bind_eq_bind, Option.bind_some, if_neg hoperand, hnone, hparse]
    rfl
  | assign target value =>
    obtain ⟨htarget, -, hne, hvalue⟩ := h
    have htext : (Statement.assign target value).text.toList =
        target.text.toList ++ (" = ".toList ++ (value.text.toList ++ [';'])) := by
      simp [Statement.text]
    have hstops : Stops (" = ".toList ++ (value.text.toList ++ [';'])) := stops_cons (by decide) _
    rw [htext, Statement.parse, parseValue_operand htarget hstops (by simp)]
    simp only [Option.bind_eq_bind, Option.bind_some, if_neg hne, dropPrefix?_append,
      parseLastValue_text hvalue]
    rfl
  | call function arguments =>
    obtain ⟨hfunction, -, harguments⟩ := h
    have htext : (Statement.call function arguments).text.toList =
        (callText function arguments).toList ++ [';'] := by
      simp [Statement.text]
    rw [htext, Statement.parse, parseValue_call hfunction harguments]
    rfl
  | discard function arguments =>
    -- the cast looks like a call of a function without a name
    have hcast : "(void)" = callText "" [.word "void"] := by decide
    have htext : (Statement.discard function arguments).text.toList =
        (callText "" [.word "void"]).toList ++ ((callText function arguments).toList ++ [';']) := by
      rw [← hcast]
      simp [Statement.text]
    have hvoid : PlainItems [.word "void"] := plainItems_word (by decide) (by decide)
    have hvalue : (Value.call function arguments).Plain := h
    have hlast := parseLastValue_text hvalue
    have hmore : (callText function arguments).toList ++ [';'] ≠ [';'] := by
      intro heq
      have hlength := congrArg List.length heq
      have hopen : "(".toList.length = 1 := rfl
      simp only [callText, String.toList_append, List.length_append, List.length_cons] at hlength
      omega
    rw [Value.text] at hlast
    rw [htext, Statement.parse, parseValue_call (by decide) hvoid]
    simp only [Option.bind_eq_bind, Option.bind_some, if_neg hmore, and_self, if_true, hlast]
    rfl
  | returns value =>
    have hvalue : value.Plain := h
    have htext : (Statement.returns value).text.toList =
        "return".toList ++ ' ' :: (value.text.toList ++ [';']) := by
      simp [Statement.text]
    have hstops : Stops [';'] := stops_cons (by decide) []
    have hdrop : (' ' :: (value.text.toList ++ [';'])).dropPrefix? [' '] =
        some (value.text.toList ++ [';']) := dropPrefix?_append " " _
    rw [htext, Statement.parse, parseValue_word (by decide)]
    simp only [Option.bind_eq_bind, Option.bind_some, if_true, hdrop, parseReturn,
      parseValue_text hvalue hstops (by decide)]
    rfl
  | returnsDefault remark =>
    have htext : (Statement.returnsDefault remark).text.toList =
        "return".toList ++ ' ' :: ((Value.braces []).text.toList ++
          ("; // ".toList ++ remark.toList)) := by
      simp [Statement.text, Value.text, commaSeparated, inBraces]
    have hbraces : (Value.braces []).Plain := ⟨by simp, by simp⟩
    have hstops : Stops ("; // ".toList ++ remark.toList) := stops_cons (by decide) _
    have hdrop : (' ' :: ((Value.braces []).text.toList ++
        ("; // ".toList ++ remark.toList))).dropPrefix? [' '] =
          some ((Value.braces []).text.toList ++ ("; // ".toList ++ remark.toList)) :=
      dropPrefix?_append " " _
    have hmore : "; // ".toList ++ remark.toList ≠ [';'] := by simp
    rw [htext, Statement.parse, parseValue_word (by decide)]
    simp only [Option.bind_eq_bind, Option.bind_some, if_true, hdrop, parseReturn,
      parseValue_text hbraces hstops (by simp), if_neg hmore, dropPrefix?_append,
      String.ofList_toList]
    rfl

/-! ## Branches -/

/-- The condition between the brackets of a branch, the last bracket included. -/
def Condition.parse (text : List Char) : Option Condition := do
  let (value, rest) ← parseValue text
  match value with
  | .call function arguments =>
    if function = "XR_SUCCEEDED" ∧ arguments = [.word "result"] ∧ rest = [')'] then
      return .succeeded
    else none
  | .operand left =>
    match rest.dropPrefix? " == ".toList with
    | some rest =>
      let (right, rest) ← parseOperand rest
      if rest = [')'] then return .equal left right else none
    | none =>
      let (right, rest) ← parseOperand (← rest.dropPrefix? " != ".toList)
      if rest = [')'] then return .differ left right else none
  | .braces _ => none

def Guard.parse (text : List Char) : Option Guard :=
  if text = "else".toList then some .otherwise
  else match text.dropPrefix? "else if (".toList with
    | some rest => do return .otherwiseWhen (← Condition.parse rest)
    | none => do return .when (← Condition.parse (← text.dropPrefix? "if (".toList))

/-- The text of a condition is parsed into it. -/
theorem Condition.parse_text {condition : Condition} (h : condition.Plain) :
    Condition.parse (condition.text.toList ++ [')']) = some condition := by
  have hclose : Stops [')'] := stops_cons (by decide) []
  cases condition with
  | succeeded =>
    have hresult : PlainItems [.word "result"] := plainItems_word (by decide) (by decide)
    have htext : Condition.succeeded.text = callText "XR_SUCCEEDED" [.word "result"] := by decide
    rw [htext, Condition.parse, parseValue_call (by decide) hresult]
    rfl
  | equal left right =>
    have hleft : left.Plain := h left (by simp [Condition.operands])
    have hright : right.Plain := h right (by simp [Condition.operands])
    have htext : (Condition.equal left right).text.toList ++ [')'] =
        left.text.toList ++ (" == ".toList ++ (right.text.toList ++ [')'])) := by
      simp [Condition.text]
    have hstops : Stops (" == ".toList ++ (right.text.toList ++ [')'])) := stops_cons (by decide) _
    rw [htext, Condition.parse, parseValue_operand hleft hstops (by simp)]
    simp only [Option.bind_eq_bind, Option.bind_some, dropPrefix?_append,
      parseOperand_text hright hclose]
    rfl
  | differ left right =>
    have hleft : left.Plain := h left (by simp [Condition.operands])
    have hright : right.Plain := h right (by simp [Condition.operands])
    have htext : (Condition.differ left right).text.toList ++ [')'] =
        left.text.toList ++ (" != ".toList ++ (right.text.toList ++ [')'])) := by
      simp [Condition.text]
    have hstops : Stops (" != ".toList ++ (right.text.toList ++ [')'])) := stops_cons (by decide) _
    have hnone : (" != ".toList ++ (right.text.toList ++ [')'])).dropPrefix? " == ".toList =
        none := by
      simp [List.dropPrefix?]
    rw [htext, Condition.parse, parseValue_operand hleft hstops (by simp)]
    simp only [Option.bind_eq_bind, Option.bind_some, hnone, dropPrefix?_append,
      parseOperand_text hright hclose]
    rfl

/-- The line in front of a branch is parsed into its start. -/
theorem Guard.parse_text {guard : Guard} (h : guard.Plain) :
    Guard.parse guard.text.toList = some guard := by
  cases guard with
  | when condition =>
    have htext : (Guard.when condition).text.toList =
        "if (".toList ++ (condition.text.toList ++ [')']) := by
      simp [Guard.text]
    have hnone : ("if (".toList ++ (condition.text.toList ++ [')'])).dropPrefix?
        "else if (".toList = none := by
      simp [List.dropPrefix?]
    rw [htext, Guard.parse, if_neg (by simp), hnone, dropPrefix?_append]
    simp only [Option.bind_eq_bind, Option.bind_some, Condition.parse_text h]
    rfl
  | otherwiseWhen condition =>
    have htext : (Guard.otherwiseWhen condition).text.toList =
        "else if (".toList ++ (condition.text.toList ++ [')']) := by
      simp [Guard.text]
    rw [htext, Guard.parse, if_neg (by simp), dropPrefix?_append]
    simp only [Option.bind_eq_bind, Option.bind_some, Condition.parse_text h]
    rfl
  | otherwise => rfl

end XrManifest.Cpp
