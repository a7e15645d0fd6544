import XrManifest.Json.Overwriting
import XrManifest.Manifest.Reading
import XrManifest.Proofs.Json.Parts
import XrManifest.Proofs.Outcomes

/-!
# The pass over the bytes of a relaxed text

Reading the bytes of a text once and overwriting some of them gives the bytes of its strict
text (`run_start`), though escapes are passed over two bytes at a time and commas are
overwritten late.
-/

namespace XrManifest.Json.Relaxed

open XrManifest.Text

/-! ## Strings and comments in bytes -/

/-- A byte that is neither a quote nor a backslash is passed over alone. -/
theorem stringEnd_cons {b : UInt8} (hslash : b ≠ '\\'.toUInt8) (hquote : b ≠ '"'.toUInt8)
    (rest : List UInt8) : stringEnd (b :: rest) = stringEnd rest + 1 := by
  cases rest with
  | nil => rfl
  | cons c rest => rw [stringEnd, if_neg hslash, if_neg hquote]

theorem stringEnd_quote (rest : List UInt8) : stringEnd ('"'.toUInt8 :: rest) = 1 := by
  cases rest with
  | nil => rfl
  | cons c rest => rw [stringEnd, if_neg (by decide), if_pos rfl]

/-- Bytes that are neither quotes nor backslashes do not end a string. -/
theorem stringEnd_append {body : List UInt8} (hslash : '\\'.toUInt8 ∉ body)
    (hquote : '"'.toUInt8 ∉ body) (rest : List UInt8) :
    stringEnd (body ++ rest) = stringEnd rest + body.length := by
  induction body with
  | nil => rfl
  | cons b body ih =>
    rw [List.mem_cons, not_or] at hslash hquote
    rw [List.cons_append, stringEnd_cons (Ne.symm hslash.1) (Ne.symm hquote.1),
      ih hslash.2 hquote.2, List.length_cons, Nat.add_assoc]

/-- A string goes on behind a text that can stand between its quotes. -/
theorem stringEnd_enclosed {inside : List Char} (h : Enclosed inside) (rest : List UInt8) :
    stringEnd (bytes inside ++ rest) = stringEnd rest + (bytes inside).length := by
  induction h with
  | nil => rfl
  | @plain c inside hquote hslash _ ih =>
    have hmem : ∀ d : Char, IsAscii d → c ≠ d → d.toUInt8 ∉ String.utf8EncodeChar c :=
      fun d hd hne hmem => hne ((toUInt8_mem_encode hd).1 hmem)
    rw [bytes_cons, List.append_assoc,
      stringEnd_append (hmem '\\' (by decide) hslash) (hmem '"' (by decide) hquote), ih,
      List.length_append]
    omega
  | @escaped c inside _ ih =>
    -- the second of the two bytes that are passed over may be inside of a character
    obtain ⟨b, more, hencode, hmore⟩ := exists_encode c
    have hmem : ∀ d : Char, IsAscii d → d.toUInt8 ∉ more :=
      fun d hd hmem => ne_toUInt8 (hmore _ hmem) hd rfl
    have hbytes : bytes ('\\' :: c :: inside) = '\\'.toUInt8 :: b :: (more ++ bytes inside) := by
      rw [bytes_cons, bytes_cons, hencode]
      rfl
    rw [hbytes, List.cons_append, List.cons_append, List.append_assoc, stringEnd, if_pos rfl,
      stringEnd_append (hmem '\\' (by decide)) (hmem '"' (by decide)), ih, List.length_cons,
      List.length_cons, List.length_append]
    omega

/-- A string that nothing ends goes on to the end of the text. -/
theorem stringEnd_endsInString {inside : List Char} (h : EndsInString inside) :
    stringEnd (bytes inside) = (bytes inside).length := by
  rcases h with hinside | ⟨body, hbody, rfl⟩
  · have hend := stringEnd_enclosed hinside []
    rw [List.append_nil] at hend
    rw [hend, stringEnd, Nat.zero_add]
  · rw [bytes_append, stringEnd_enclosed hbody, List.length_append, Nat.add_comm]
    rfl

/-- The end of a block comment is not in front of a text that does not contain a star. -/
theorem blockEnd?_append {body : List UInt8} (h : '*'.toUInt8 ∉ body) (rest : List UInt8) :
    blockEnd? (body ++ rest) = (blockEnd? rest).map (· + body.length) := by
  induction body with
  | nil => simp
  | cons b body ih =>
    rw [List.mem_cons, not_or] at h
    rw [List.cons_append, blockEnd?, if_neg (fun hb => h.1 hb.1.symm), ih h.2, Option.map_map]
    rfl

/-- A comment goes on behind a character that does not start `*/`. -/
theorem blockEnd?_cons {c : Char} {rest : List Char} (h : ¬ (c = '*' ∧ rest.head? = some '/')) :
    blockEnd? (bytes (c :: rest)) = (blockEnd? (bytes rest)).map (· + c.utf8Size) := by
  rw [bytes_cons]
  by_cases hc : c = '*'
  · have hhead : (bytes rest).head? ≠ some '/'.toUInt8 := by
      rw [Ne, head?_bytes (by decide)]
      exact fun hhead => h ⟨hc, hhead⟩
    subst hc
    have hstar : String.utf8EncodeChar '*' = ['*'.toUInt8] := rfl
    rw [hstar, List.singleton_append, blockEnd?, if_neg fun hb => hhead hb.2]
    rfl
  · rw [blockEnd?_append fun hmem => hc ((toUInt8_mem_encode (by decide)).1 hmem),
      String.length_utf8EncodeChar]

/-- The bytes of a comment are those of its characters, up to the first `*/`. -/
theorem blockEnd?_body {body : List Char} (h : ¬ ['*', '/'] <:+: body) (rest : List Char) :
    blockEnd? (bytes (body ++ '*' :: '/' :: rest)) = some (bytes body).length := by
  induction body with
  | nil => rfl
  | cons c body ih =>
    rw [List.cons_append, blockEnd?_cons (not_end_in_body h rest), ih (not_blockEnd_of_cons h),
      bytes_cons, List.length_append, String.length_utf8EncodeChar, Option.map_some, Nat.add_comm]

theorem blockEnd?_eq_none {body : List Char} (h : ¬ ['*', '/'] <:+: body) :
    blockEnd? (bytes body) = none := by
  induction body with
  | nil => rfl
  | cons c body ih =>
    have hend : ¬ (c = '*' ∧ body.head? = some '/') := by
      rintro ⟨rfl, hslash⟩
      obtain ⟨rest, rfl⟩ := List.head?_eq_some_iff.1 hslash
      exact h ⟨[], rest, rfl⟩
    rw [blockEnd?_cons hend, ih (not_blockEnd_of_cons h)]
    rfl

/-! ## Comments become spaces -/

/-- A character of a comment is overwritten byte by byte. -/
theorem blanks_encode (c : Char) : blanks (String.utf8EncodeChar c) = bytes (spaces c) := by
  by_cases hc : c = '\n'
  · rw [hc]
    rfl
  -- no byte of another character is a line feed
  · have hblank : blanks (String.utf8EncodeChar c) =
        (String.utf8EncodeChar c).map fun _ => ' '.toUInt8 := by
      refine List.map_congr_left fun b hb => if_neg ?_
      rintro rfl
      exact hc ((toUInt8_mem_encode isAscii_lineBreak).1 hb)
    have hspace : ∀ n, bytes (List.replicate n ' ') = List.replicate n ' '.toUInt8 := by
      intro n
      induction n with
      | zero => rfl
      | succ n ih => rw [List.replicate_succ, bytes_cons, ih]; rfl
    rw [hblank, List.map_const', String.length_utf8EncodeChar, spaces, if_neg hc, hspace]

/-- So is a whole comment. -/
theorem blanks_bytes (text : List Char) : blanks (bytes text) = bytes (text.flatMap spaces) := by
  induction text with
  | nil => rfl
  | cons c text ih =>
    rw [bytes_cons, List.flatMap_cons, bytes_append, ← ih, ← blanks_encode]
    exact List.map_append

/-- A comment becomes spaces, and whether a value stands in front is as it was. -/
theorem blanked_comment (text : List Char) (afterValue : Bool) (rest : List (Char × Role)) :
    blanked afterValue (text.map (fun c => (c, Role.comment)) ++ rest) =
      text.flatMap spaces ++ blanked afterValue rest := by
  induction text with
  | nil => rfl
  | cons c text ih =>
    rw [List.map_cons, List.cons_append, blanked, ih, List.flatMap_cons, List.append_assoc]

theorem blanked_unclosed (text : List Char) (afterValue : Bool) :
    blanked afterValue (text.map fun c => (c, Role.unclosed)) = text := by
  induction text with
  | nil => rfl
  | cons c text ih => rw [List.map_cons, blanked, ih]

/-! ## Steps of the pass -/

namespace Overwriting

/-- The comma that may be a trailing one is among the bytes so far. -/
def Valid (o : Overwriting) : Prop := ∀ place ∈ o.comma, place < o.out.length

/-- What the pass makes of the bytes so far and of a text behind them: the comma is a trailing
one when a closing bracket comes next. -/
def finish (o : Overwriting) (text : List Char) : List UInt8 :=
  (if closerFollows (marked .code text) then o.settled else o.out) ++
    bytes (stripped o.afterValue text)

variable {o : Overwriting}

theorem settled_none (out : List UInt8) (afterValue : Bool) :
    settled ⟨out, none, afterValue⟩ = out := rfl

/-- The comma that may be a trailing one stays where it is when bytes are put behind it. -/
theorem settled_append (ho : o.Valid) (more : List UInt8) :
    settled { o with out := o.out ++ more } = o.settled ++ more := by
  unfold settled
  cases hcomma : o.comma with
  | none => rfl
  | some place => exact List.set_append_left place _ (ho place hcomma)

/-- Bytes put behind the others do not move the comma. -/
theorem Valid.append (ho : o.Valid) (more : List UInt8) :
    Valid { o with out := o.out ++ more } := by
  intro place hplace
  have hlt := ho place hplace
  rw [List.length_append]
  omega

theorem Valid.comment (ho : o.Valid) (bytes : List UInt8) : Valid (o.comment bytes) :=
  ho.append (blanks bytes)

theorem valid_none {out : List UInt8} {afterValue : Bool} : Valid ⟨out, none, afterValue⟩ := by
  intro place hplace
  cases hplace

theorem run_nil : o.run [] = o.out := by rw [run]

/-- A string is taken over as a whole. -/
theorem run_string {inside rest : List UInt8} (h : stringEnd (inside ++ rest) = inside.length) :
    o.run ('"'.toUInt8 :: (inside ++ rest)) =
      run ⟨o.out ++ '"'.toUInt8 :: inside, none, true⟩ rest := by
  rw [run, if_pos rfl, h]
  dsimp only
  rw [List.take_left, List.drop_left]

/-- A line comment is overwritten up to its line break, which stays. -/
theorem run_lineComment {body rest : List UInt8} (hbody : '\n'.toUInt8 ∉ body)
    (hends : ∀ b ∈ rest.head?, b = '\n'.toUInt8) :
    o.run ('/'.toUInt8 :: '/'.toUInt8 :: (body ++ rest)) =
      run (o.comment ('/'.toUInt8 :: '/'.toUInt8 :: body)) rest := by
  have hall : ∀ b ∈ '/'.toUInt8 :: body, decide (b ≠ '\n'.toUInt8) = true := by
    intro b hb
    rcases List.mem_cons.1 hb with rfl | hb
    · decide
    · exact decide_eq_true fun hbreak => hbody (hbreak ▸ hb)
  -- nothing behind the comment is overwritten with it
  have htake : rest.takeWhile (· ≠ '\n'.toUInt8) = [] := by
    cases rest with
    | nil => rfl
    | cons b rest => simp [hends b rfl]
  have hdrop : rest.dropWhile (· ≠ '\n'.toUInt8) = rest := by
    cases rest with
    | nil => rfl
    | cons b rest => simp [hends b rfl]
  rw [run, if_neg (by decide), if_pos ⟨rfl, rfl⟩, ← List.cons_append,
    List.takeWhile_append_of_pos hall, List.dropWhile_append_of_pos hall, htake, hdrop,
    List.append_nil]

/-- A block comment is overwritten with the marks around it. -/
theorem run_blockComment {body rest : List UInt8}
    (h : blockEnd? (body ++ '*'.toUInt8 :: '/'.toUInt8 :: rest) = some body.length) :
    o.run ('/'.toUInt8 :: '*'.toUInt8 :: (body ++ '*'.toUInt8 :: '/'.toUInt8 :: rest)) =
      run (o.comment
        ('/'.toUInt8 :: '*'.toUInt8 :: (body ++ ['*'.toUInt8, '/'.toUInt8]))) rest := by
  have hsplit : '*'.toUInt8 :: (body ++ '*'.toUInt8 :: '/'.toUInt8 :: rest) =
      ('*'.toUInt8 :: (body ++ ['*'.toUInt8, '/'.toUInt8])) ++ rest := by simp
  -- the end is found behind the opening, and its two bytes count as well
  have hlength : body.length + 3 =
      ('*'.toUInt8 :: (body ++ ['*'.toUInt8, '/'.toUInt8])).length := by simp
  rw [run, if_neg (by decide),
    if_neg fun hline => absurd (Option.some.inj hline.2) (by decide), if_pos ⟨rfl, rfl⟩,
    List.tail_cons, h]
  dsimp only
  rw [hsplit, hlength, List.take_left, List.drop_left]

/-- A block comment that nothing ends is taken over, and the text with it. -/
theorem run_openComment {body : List UInt8} (h : blockEnd? body = none) :
    o.run ('/'.toUInt8 :: '*'.toUInt8 :: body) = o.out ++ '/'.toUInt8 :: '*'.toUInt8 :: body := by
  rw [run, if_neg (by decide),
    if_neg fun hline => absurd (Option.some.inj hline.2) (by decide), if_pos ⟨rfl, rfl⟩,
    List.tail_cons, h]

/-- Any other byte is looked at on its own. -/
theorem run_code {b : UInt8} {rest : List UInt8} (hquote : b ≠ '"'.toUInt8)
    (hslash : b = '/'.toUInt8 → ∀ d ∈ rest.head?, d ≠ '/'.toUInt8 ∧ d ≠ '*'.toUInt8) :
    o.run (b :: rest) = (o.code b).run rest := by
  rw [run, if_neg hquote, if_neg fun h => (hslash h.1 _ h.2).1 rfl,
    if_neg fun h => (hslash h.1 _ h.2).2 rfl]

/-- No character outside of ASCII is a bracket, a comma, a colon or white space. -/
theorem kinds_of_not_isAscii {c : Char} (hc : ¬ IsAscii c) :
    c ≠ ',' ∧ isCloser c = false ∧ isOpener c = false ∧ isSpace c = false := by
  have hne : ∀ d : Char, IsAscii d → c ≠ d := by
    rintro d hd rfl
    exact hc hd
  have hcloser : isCloser c = false := by
    simp [isCloser, hne ']' (by decide), hne '\x7d' (by decide)]
  have hopener : isOpener c = false := by
    simp [isOpener, hne '[' (by decide), hne '\x7b' (by decide), hne ':' (by decide)]
  have hspace : isSpace c = false := by
    simp [isSpace, hne ' ' (by decide), hne '\t' (by decide), hne '\n' (by decide),
      hne '\x0c' (by decide), hne '\r' (by decide)]
  exact ⟨hne ',' (by decide), hcloser, hopener, hspace⟩

/-- The bytes of a character outside of ASCII end a value. -/
theorem code_of_lt {b : UInt8} (hb : 127 < b.toNat) : o.code b = ⟨o.out ++ [b], none, true⟩ := by
  have hc : ¬ IsAscii (Char.ofUInt8 b) := by
    intro hle
    have hnat : (Char.ofUInt8 b).toNat = b.toNat := UInt8.toNat_toUInt32 b
    unfold IsAscii at hle
    omega
  obtain ⟨hcomma, hcloser, hopener, hspace⟩ := kinds_of_not_isAscii hc
  simp only [code, hcomma, hcloser, hopener, hspace, if_false, Bool.false_eq_true]

/-- Bytes beyond ASCII are neither commas nor brackets, and a value ends with them. -/
theorem run_append_of_lt {more : List UInt8} (hmore : ∀ b ∈ more, 127 < b.toNat)
    (hne : more ≠ []) (rest : List UInt8) :
    o.run (more ++ rest) = run ⟨o.out ++ more, none, true⟩ rest := by
  -- the bytes are read one by one, and the last of them leaves the state
  induction more generalizing o with
  | nil => exact absurd rfl hne
  | cons b more ih =>
    have hb : 127 < b.toNat := hmore b List.mem_cons_self
    rw [List.cons_append, run_code (ne_toUInt8 hb (by decide))
      (fun hslash => absurd hslash (ne_toUInt8 hb (by decide))), code_of_lt hb]
    cases more with
    | nil => rfl
    | cons d more =>
      rw [ih (fun x hx => hmore x (List.mem_cons_of_mem b hx)) (by simp), List.append_assoc]
      rfl

/-! ## Characters of the text itself -/

/-- A closing bracket is neither white space nor an opening one. -/
theorem isCloser_kinds {c : Char} (h : isCloser c = true) :
    isSpace c = false ∧ isOpener c = false := by
  have hcases : c = ']' ∨ c = '\x7d' := by simpa [isCloser] using h
  rcases hcases with rfl | rfl <;> decide

theorem isOpener_kinds {c : Char} (h : isOpener c = true) : isSpace c = false := by
  have hcases : (c = '[' ∨ c = '\x7b') ∨ c = ':' := by simpa [isOpener] using h
  rcases hcases with (rfl | rfl) | rfl <;> decide

/-- A byte of code puts the comma, if it is one, among the bytes. -/
theorem Valid.code (ho : o.Valid) (b : UInt8) : Valid (o.code b) := by
  unfold Overwriting.code
  dsimp only
  split
  case isTrue =>
    intro place hplace
    -- the place of a comma is where its byte is put
    split at hplace
    case isTrue =>
      rcases Option.some.inj hplace with rfl
      simp
    case isFalse => cases hplace
  case isFalse =>
    split
    case isTrue => exact valid_none
    case isFalse =>
      split
      case isTrue => exact valid_none
      case isFalse =>
        split
        case isTrue => exact ho.append [b]
        case isFalse => exact valid_none

/-- A comma behind a value becomes a space when a closing bracket comes next. -/
theorem finish_comma (rest : List Char) :
    (o.code ','.toUInt8).finish rest = o.finish (',' :: rest) := by
  have hcode : o.code ','.toUInt8 =
      ⟨o.out ++ [','.toUInt8], if o.afterValue then some o.out.length else none, false⟩ := by
    rw [code, ofUInt8_toUInt8 (by decide)]
    rfl
  have hlast : (o.out ++ [','.toUInt8]).set o.out.length ' '.toUInt8 = o.out ++ [' '.toUInt8] := by
    simp
  have hcloser : closerFollows (marked .code (',' :: rest)) = false := rfl
  rw [finish, finish, hcode, stripped_comma, hcloser, bytes_cons]
  -- only behind a value and in front of a closing bracket the comma is overwritten
  cases o.afterValue <;> cases closerFollows (marked .code rest) <;> simp [settled, hlast] <;> rfl

/-- A character of ASCII that is read as code is a byte that is. -/
theorem finish_code (ho : o.Valid) {c : Char} (hc : IsAscii c) {rest : List Char}
    (hmarked : marked .code (c :: rest) = (c, .code) :: marked .code rest) :
    (o.code c.toUInt8).finish rest = o.finish (c :: rest) := by
  by_cases hcomma : c = ','
  · subst hcomma
    exact finish_comma rest
  have hbytes : ∀ text, bytes (c :: text) = [c.toUInt8] ++ bytes text := bytes_ascii hc
  have hclosers : closerFollows (marked .code (c :: rest)) =
      if isSpace c then closerFollows (marked .code rest) else isCloser c := by
    rw [hmarked]
    rfl
  have hstripped : stripped o.afterValue (c :: rest) =
      c :: stripped (if isSpace c then o.afterValue else !isOpener c) rest := by
    rw [stripped, hmarked, blanked, if_neg hcomma]
    split <;> rfl
  rw [finish, finish, hclosers, hstripped, hbytes]
  unfold code
  rw [ofUInt8_toUInt8 hc]
  -- A closing bracket settles the comma in front of it, white space lets it wait, and
  -- anything else keeps it as it is.
  by_cases hcloser : isCloser c = true
  · obtain ⟨hspace, hopener⟩ := isCloser_kinds hcloser
    simp only [hcomma, hcloser, hspace, hopener, if_true, if_false, Bool.false_eq_true,
      settled_none, ite_self, Bool.not_false, List.append_assoc]
  by_cases hopener : isOpener c = true
  · have hspace := isOpener_kinds hopener
    simp only [hcomma, hcloser, hspace, hopener, if_true, if_false, Bool.false_eq_true,
      settled_none, ite_self, Bool.not_true, List.append_assoc]
  by_cases hspace : isSpace c = true
  · simp only [hcomma, hcloser, hspace, hopener, if_true, if_false, Bool.false_eq_true,
      settled_append ho]
    split <;> rw [List.append_assoc]
  · simp only [hcomma, hcloser, hspace, hopener, if_false, Bool.false_eq_true,
      settled_none, ite_self, Bool.not_false, List.append_assoc]

/-- A character beyond ASCII is taken over as its bytes. -/
theorem finish_of_not_isAscii {c : Char} (hc : ¬ IsAscii c) {rest : List Char}
    (hmarked : marked .code (c :: rest) = (c, .code) :: marked .code rest) :
    finish ⟨o.out ++ String.utf8EncodeChar c, none, true⟩ rest = o.finish (c :: rest) := by
  obtain ⟨hcomma, hcloser, hopener, hspace⟩ := kinds_of_not_isAscii hc
  have hclosers : closerFollows (marked .code (c :: rest)) = false := by
    simp only [hmarked, closerFollows, hspace, hcloser, if_false, Bool.false_eq_true]
  have hstripped : stripped o.afterValue (c :: rest) = c :: stripped true rest := by
    simp only [stripped, hmarked, blanked, hcomma, hspace, hopener, if_false, Bool.false_eq_true,
      Bool.not_false]
  rw [finish, finish, hclosers, hstripped, bytes_cons, settled_none, ite_self, List.append_assoc]
  rfl

/-! ## The whole pass -/

/-- A comment is overwritten, and what comes next does not depend on it. -/
theorem finish_comment (ho : o.Valid) {text rest : List Char}
    (hmarked : marked .code (text ++ rest) =
      text.map (fun c => (c, Role.comment)) ++ marked .code rest) :
    (o.comment (bytes text)).finish rest = o.finish (text ++ rest) := by
  have hstripped : stripped o.afterValue (text ++ rest) =
      text.flatMap spaces ++ stripped o.afterValue rest := by
    rw [stripped, hmarked, blanked_comment]
    rfl
  rw [finish, finish, hmarked, closerFollows_vacant (vacant_comment text), hstripped,
    bytes_append, comment, settled_append ho, blanks_bytes]
  split <;> rw [List.append_assoc]

/-- A string ends a value and stays. -/
theorem finish_string {text rest : List Char} (hne : text ≠ [])
    (hmarked : marked .code (text ++ rest) =
      text.map (fun c => (c, Role.string)) ++ marked .code rest) :
    finish ⟨o.out ++ bytes text, none, true⟩ rest = o.finish (text ++ rest) := by
  have hstripped : stripped o.afterValue (text ++ rest) = text ++ stripped true rest := by
    rw [stripped, hmarked, blanked_string hne]
    rfl
  have hcloser : closerFollows (marked .code (text ++ rest)) = false := by
    rw [hmarked]
    obtain ⟨c, text, rfl⟩ := List.exists_cons_of_ne_nil hne
    rfl
  rw [finish, finish, hcloser, hstripped, bytes_append, settled_none, ite_self, List.append_assoc]
  rfl

/-- The bytes so far of a text that has been read. -/
theorem finish_nil : o.finish [] = o.out := List.append_nil _

/-- The pass over a string, which is passed over at once. -/
theorem run_quoted {inside rest : List Char}
    (hend : stringEnd (bytes inside ++ bytes rest) = (bytes inside).length)
    (hmarked : marked .code (('"' :: inside) ++ rest) =
      ('"' :: inside).map (fun c => (c, Role.string)) ++ marked .code rest)
    (hrest : ∀ {o : Overwriting}, o.Valid → o.run (bytes rest) = o.finish rest) :
    o.run (bytes (('"' :: inside) ++ rest)) = o.finish (('"' :: inside) ++ rest) := by
  have hbytes : bytes ('"' :: inside) = '"'.toUInt8 :: bytes inside := bytes_ascii (by decide) _
  rw [← finish_string (by simp) hmarked, ← hrest valid_none, bytes_append, hbytes]
  exact run_string hend

/-- The pass over the bytes of a text does what reading its characters does. -/
theorem run_of_divided {text : List Char} {parts : List (List Char × Role)}
    (h : Divided text parts) (ho : o.Valid) : o.run (bytes text) = o.finish text := by
  -- Each part is one step of the pass, or as many as it has bytes when it is a character of
  -- code. What has been read so far changes with every step.
  induction h generalizing o with
  | nil => rw [bytes_nil, run_nil, finish_nil]
  | @code c rest parts hquote hslash hrest ih =>
    have hmarked : marked .code (c :: rest) = (c, .code) :: marked .code rest :=
      @marked_part [c] rest .code parts (.code hquote hslash hrest) hrest
    rcases encode_cases c with ⟨hc, -⟩ | ⟨hc, hencode⟩
    · have hne : c.toUInt8 ≠ '"'.toUInt8 := fun h => hquote ((toUInt8_inj hc (by decide)).1 h)
      rw [← finish_code ho hc hmarked, ← ih (ho.code _), bytes_ascii hc]
      refine run_code hne fun hbyte d hd => ?_
      -- what stands behind a slash is the same in bytes
      have hnext := hslash ((toUInt8_inj hc (by decide)).1 hbyte)
      constructor
      · rintro rfl
        exact (hnext _ ((head?_bytes (by decide) rest).1 hd)).1 rfl
      · rintro rfl
        exact (hnext _ ((head?_bytes (by decide) rest).1 hd)).2 rfl
    · rw [← finish_of_not_isAscii hc hmarked, ← ih valid_none, bytes_cons]
      exact run_append_of_lt hencode String.utf8EncodeChar_ne_nil (bytes rest)
  | @string inside rest parts hinside hrest ih =>
    have hend : stringEnd (bytes (inside ++ ['"']) ++ bytes rest) =
        (bytes (inside ++ ['"'])).length := by
      have hquote : bytes ['"'] = ['"'.toUInt8] := rfl
      rw [bytes_append, hquote, List.append_assoc, List.singleton_append,
        stringEnd_enclosed hinside, stringEnd_quote, List.length_append, Nat.add_comm]
      rfl
    -- the string is its opening quote and what `stringEnd` measures
    have hquoted : '"' :: (inside ++ '"' :: rest) = ('"' :: (inside ++ ['"'])) ++ rest := by simp
    have hdivided : Divided (('"' :: (inside ++ ['"'])) ++ rest)
        (('"' :: (inside ++ ['"']), .string) :: parts) := hquoted ▸ .string hinside hrest
    rw [hquoted]
    exact run_quoted hend (marked_part hdivided hrest) ih
  | @openString inside hinside =>
    have hend := stringEnd_endsInString hinside
    have hdivided : Divided (('"' :: inside) ++ []) [('"' :: inside, .string)] := by
      rw [List.append_nil]
      exact .openString hinside
    have hall := run_quoted (o := o) (by rw [bytes_nil, List.append_nil, hend])
      (marked_part hdivided .nil) (fun _ => by rw [bytes_nil, run_nil, finish_nil])
    rw [List.append_nil] at hall
    exact hall
  | @lineComment body rest parts hbody hends hrest ih =>
    have hmarked := @marked_part ('/' :: '/' :: body) rest .comment parts
      (.lineComment hbody hends hrest) hrest
    have hbytes : bytes ('/' :: '/' :: body) = '/'.toUInt8 :: '/'.toUInt8 :: bytes body := rfl
    have hcomment := finish_comment ho hmarked
    rw [hbytes, List.cons_append, List.cons_append] at hcomment
    rw [← hcomment, ← ih (ho.comment _), bytes_ascii (by decide), bytes_ascii (by decide),
      bytes_append]
    refine run_lineComment ?_ fun b hb => ?_
    · rw [toUInt8_mem_bytes isAscii_lineBreak]
      exact hbody
    · cases rest with
      | nil => cases hb
      | cons c rest =>
        rcases hends c rfl with rfl
        exact (Option.some.inj hb).symm
  | @blockComment body rest parts hbody hrest ih =>
    have hblock : '/' :: '*' :: (body ++ '*' :: '/' :: rest) =
        ('/' :: '*' :: (body ++ ['*', '/'])) ++ rest := by simp
    have hdivided : Divided (('/' :: '*' :: (body ++ ['*', '/'])) ++ rest)
        (('/' :: '*' :: (body ++ ['*', '/']), .comment) :: parts) :=
      hblock ▸ .blockComment hbody hrest
    have hbytes : bytes ('/' :: '*' :: (body ++ ['*', '/'])) =
        '/'.toUInt8 :: '*'.toUInt8 :: (bytes body ++ ['*'.toUInt8, '/'.toUInt8]) := by
      rw [bytes_ascii (by decide), bytes_ascii (by decide), bytes_append]
      rfl
    have htext : bytes (body ++ '*' :: '/' :: rest) =
        bytes body ++ '*'.toUInt8 :: '/'.toUInt8 :: bytes rest := by
      rw [bytes_append, bytes_ascii (by decide), bytes_ascii (by decide)]
    have hend := blockEnd?_body hbody rest
    rw [htext] at hend
    rw [hblock, ← finish_comment ho (marked_part hdivided hrest), ← ih (ho.comment _), ← hblock,
      hbytes, bytes_ascii (by decide), bytes_ascii (by decide), htext]
    exact run_blockComment hend
  | @openComment body hbody =>
    have hmarked := marked_of_divided (.openComment hbody)
    rw [List.flatMap_singleton] at hmarked
    have hstripped : stripped o.afterValue ('/' :: '*' :: body) = '/' :: '*' :: body := by
      rw [stripped, hmarked, blanked_unclosed]
    have hcloser : closerFollows (marked .code ('/' :: '*' :: body)) = false := by
      rw [hmarked]
      rfl
    rw [finish, hcloser, hstripped, bytes_ascii (by decide), bytes_ascii (by decide)]
    exact run_openComment (blockEnd?_eq_none hbody)

/-- The pass over the bytes of a text gives the bytes of its strict text. -/
theorem run_start (text : List Char) : start.run (bytes text) = bytes (strictChars text) := by
  obtain ⟨parts, hparts⟩ := exists_divided text
  have hvalid : start.Valid := valid_none
  rw [run_of_divided hparts hvalid, finish]
  -- no comma waits at the start, so it does not matter what comes next
  split <;> rfl

end Overwriting

/-- What the pass writes is always the text that the characters give, so no text is left as
it is because its bytes were spoiled. -/
theorem fromUTF8?_overwritten (text : String) :
    String.fromUTF8? (overwritten text) = some (toStrict text) := by
  have hbytes : overwritten text = (toStrict text).toUTF8 := by
    have hrun : overwritten text = (Overwriting.start.run (utf8 text)).toByteArray := rfl
    rw [hrun, utf8_eq, Overwriting.run_start, toStrict, toUTF8_ofList]
  rw [hbytes, fromUTF8?_toUTF8]

end XrManifest.Json.Relaxed
