import XrManifest.Proofs.Cpp.Reading
import XrManifest.Cpp.Printing

/-!
# Nested layouts

The texts that can stand on a line of C++, and the layouts that can be built from them. The
main statement is `Layout.Fits.nested`: where every line is such a text, and braces come only
with blocks, the layout is written as a nested text.
-/

/-! ## White space at the end of a line -/

namespace XrManifest.Text

theorem trimEnd_cons_of_not_isBlank {c : Char} (h : isBlank c = false) (rest : List Char) :
    trimEnd (c :: rest) = c :: trimEnd rest := by
  rw [trimEnd]
  split
  · rename_i hnil
    rw [hnil, h]
    rfl
  · rfl

/-- What is cut off is white space. -/
theorem exists_blanks (text : List Char) :
    ∃ tail, (∀ c ∈ tail, isBlank c = true) ∧ text = trimEnd text ++ tail := by
  induction text with
  | nil => exact ⟨[], by simp, rfl⟩
  | cons c rest ih =>
    obtain ⟨tail, hblank, hrest⟩ := ih
    rw [trimEnd]
    split
    -- what is behind the character is white space; the character may be, too
    · rename_i hnil
      rw [hnil, List.nil_append] at hrest
      split
      · rename_i hc
        refine ⟨c :: rest, ?_, rfl⟩
        intro d hd
        rcases List.mem_cons.1 hd with rfl | hd
        · exact hc
        · exact hblank d (hrest ▸ hd)
      · exact ⟨tail, hblank, by rw [hrest]; rfl⟩
    · exact ⟨tail, hblank, by rw [List.cons_append, ← hrest]⟩

theorem trimEnd_append_of_not_isBlank {c : Char} (h : isBlank c = false)
    (text : List Char) : trimEnd (text ++ [c]) = text ++ [c] := by
  induction text with
  | nil => exact trimEnd_cons_of_not_isBlank h []
  | cons d text ih =>
    rw [List.cons_append, trimEnd, ih]
    split
    · rename_i hnil
      simp at hnil
    · rfl

/-- What is left does not end in white space. -/
theorem trimEnd_ends (text : List Char) :
    trimEnd text = [] ∨ ∃ front last, isBlank last = false ∧ trimEnd text = front ++ [last] := by
  induction text with
  | nil => exact .inl rfl
  | cons c rest ih =>
    rw [trimEnd]
    split
    · split
      · exact .inl rfl
      · rename_i hc
        exact .inr ⟨[], c, by simpa using hc, rfl⟩
    · rename_i hkept
      rcases ih with hnil | ⟨front, last, hlast, hrest⟩
      · exact absurd hnil hkept
      · exact .inr ⟨c :: front, last, hlast, by rw [hrest]; rfl⟩

end XrManifest.Text

namespace XrManifest.Cpp

open XrManifest.Text

namespace Reader

variable {reader after : Reader}

/-- White space does not matter in front of the end of a line. -/
theorem step_break_of_blank {c : Char} (hc : isBlank c = true)
    (h : (reader.step c).bind (fun next => next.step '\n') = some after) :
    reader.step '\n' = some after := by
  have hquote : c ≠ '"' := fun heq => absurd (heq ▸ hc) (by decide)
  have hopen : c ≠ '\x7b' := fun heq => absurd (heq ▸ hc) (by decide)
  have hclose : c ≠ '\x7d' := fun heq => absurd (heq ▸ hc) (by decide)
  have hslash : c ≠ '/' := fun heq => absurd (heq ▸ hc) (by decide)
  have hbackslash : c ≠ '\\' := fun heq => absurd (heq ▸ hc) (by decide)
  obtain ⟨inside, depth⟩ := reader
  -- in a literal no line may end; elsewhere both readers are back in code at the same depth
  by_cases hbreak : c = '\n'
  · cases inside <;> simp [step, readCode, hbreak] at h ⊢ <;> exact h
  · cases inside <;>
      simp [step, readCode, hbreak, hquote, hopen, hclose, hslash, hbackslash] at h ⊢ <;> exact h

/-- White space in front of a line break does not matter to a reader. -/
theorem step_break_of_blanks {tail : List Char} (htail : ∀ c ∈ tail, isBlank c = true)
    (h : reader.read (tail ++ ['\n']) = some after) : reader.step '\n' = some after := by
  induction tail generalizing reader with
  | nil => simpa using h
  | cons c tail ih =>
    rw [List.cons_append, read_cons] at h
    obtain ⟨next, hnext, hrest⟩ := Option.bind_eq_some_iff.1 h
    have hbreak := ih (fun d hd => htail d (List.mem_cons_of_mem c hd)) hrest
    apply step_break_of_blank (htail c List.mem_cons_self)
    rw [hnext, Option.bind_some, hbreak]

/-- A line is read in the same way without the white space at its end. -/
theorem read_trimEnd {text : List Char} (h : reader.read (text ++ ['\n']) = some after) :
    reader.read (trimEnd text ++ ['\n']) = some after := by
  obtain ⟨tail, htail, htext⟩ := exists_blanks text
  rw [htext, List.append_assoc, read_append] at h
  obtain ⟨between, hbetween, hrest⟩ := Option.bind_eq_some_iff.1 h
  have hbreak := step_break_of_blanks htail hrest
  exact read_of_parts hbetween (by simp [hbreak])

/-- Spaces in front of code do not matter. -/
theorem read_margin (level depth : Nat) :
    (codeAt depth).read (Layout.margin level) = some (codeAt depth) := by
  unfold Layout.margin
  induction 4 * level with
  | zero => rfl
  | succ count ih => exact ih

end Reader

/-! ## Texts without special characters -/

/-- The characters that a reader of code does not just pass over, and the two that end a line
or a text for some readers only. -/
def specials : List Char := ['"', '\x7b', '\x7d', '/', '\\', '\n', '\r', '\x00']

/-- A text without special characters. -/
def Plain (text : String) : Prop := ∀ c ∈ text.toList, c ∉ specials

instance (text : String) : Decidable (Plain text) :=
  List.decidableBAll (fun c => c ∉ specials) text.toList

/-- A text that can start a line: its first character is neither white space nor a closing
brace. -/
def Starts (text : String) : Prop :=
  ∃ c rest, text.toList = c :: rest ∧ isBlank c = false ∧ c ≠ '\x7d'

instance (text : String) : Decidable (Starts text) :=
  match htext : text.toList with
  | [] => isFalse fun ⟨_, _, hcons, _⟩ => List.cons_ne_nil _ _ (hcons.symm.trans htext)
  | c :: rest => decidable_of_iff (isBlank c = false ∧ c ≠ '\x7d') (by simp [Starts, htext])

/-- How a text starts does not depend on its end. -/
theorem Starts.append {first : String} (h : Starts first) (second : String) :
    Starts (first ++ second) := by
  obtain ⟨c, rest, htext, hc⟩ := h
  exact ⟨c, rest ++ second.toList, by rw [String.toList_append, htext]; rfl, hc⟩

/-- A text that can end a line: its last character is no white space. -/
def Ends (text : String) : Prop := (text.toList.getLast?.any fun c => !isBlank c) = true

instance (text : String) : Decidable (Ends text) := inferInstanceAs (Decidable (_ = _))

/-- How a text ends does not depend on its start. -/
theorem Ends.append (first : String) {second : String} (h : Ends second) :
    Ends (first ++ second) := by
  rw [Ends, String.toList_append, List.getLast?_append]
  unfold Ends at h
  cases hlast : second.toList.getLast? with
  | none => simp [hlast] at h
  | some last => simpa [hlast] using h

/-- Nothing is cut off of a text that can end a line. -/
theorem Ends.trimEnd_eq {text : String} (h : Ends text) : trimEnd text.toList = text.toList := by
  rcases List.eq_nil_or_concat text.toList with hnil | ⟨front, last, htext⟩
  · rw [hnil]
    rfl
  · rw [Ends, htext, List.concat_eq_append, List.getLast?_concat] at h
    rw [htext, List.concat_eq_append]
    exact trimEnd_append_of_not_isBlank (by simpa using h) front

/-- A text on one line of code that a reader leaves at the depth at which it comes to it. -/
structure Balanced (text : String) : Prop where
  unbroken : '\n' ∉ text.toList
  read : ∀ depth, (codeAt depth).read text.toList = some (codeAt depth)

/-- A reader passes over a character that is not special. -/
theorem step_of_not_special {c : Char} (h : c ∉ specials) (depth : Nat) :
    (codeAt depth).step c = some (codeAt depth) := by
  simp only [specials, List.mem_cons, List.not_mem_nil, or_false, not_or] at h
  simp [Reader.step, Reader.readCode, codeAt, h]

theorem Plain.append {first second : String} (hfirst : Plain first) (hsecond : Plain second) :
    Plain (first ++ second) := by
  intro c hc
  rw [String.toList_append] at hc
  exact (List.mem_append.1 hc).elim (hfirst c) (hsecond c)

theorem Plain.unbroken {text : String} (h : Plain text) : '\n' ∉ text.toList :=
  fun hmem => h _ hmem (by decide)

/-- A text whose characters are all of a kind that no special character is of. -/
theorem plain_of_all {text : String} (kind : Char → Bool)
    (hkind : specials.any kind = false) (h : ∀ c ∈ text.toList, kind c = true) :
    Plain text := by
  intro c hc hspecial
  have hany : specials.any kind = true := List.any_eq_true.2 ⟨c, hspecial, h c hc⟩
  rw [hkind] at hany
  cases hany

/-- A text without special characters opens and closes nothing. -/
theorem Plain.balanced {text : String} (h : Plain text) : Balanced text where
  unbroken := h.unbroken
  read depth := by
    have hread : ∀ rest : List Char, (∀ c ∈ rest, c ∉ specials) →
        (codeAt depth).read rest = some (codeAt depth) := by
      intro rest hrest
      induction rest with
      | nil => rfl
      | cons c rest ih =>
        have hstep := step_of_not_special (hrest c List.mem_cons_self) depth
        rw [Reader.read_cons, hstep, Option.bind_some]
        exact ih fun d hd => hrest d (List.mem_cons_of_mem c hd)
    exact hread text.toList h

/-! ## Balanced texts -/

/-- Balanced texts can be put together. -/
theorem Balanced.append {first second : String} (hfirst : Balanced first)
    (hsecond : Balanced second) : Balanced (first ++ second) where
  unbroken := by
    rw [String.toList_append]
    exact fun h => (List.mem_append.1 h).elim hfirst.unbroken hsecond.unbroken
  read depth := by
    rw [String.toList_append]
    exact Reader.read_of_parts (hfirst.read depth) (hsecond.read depth)

/-- A balanced text that can start a line. -/
structure Opening (text : String) : Prop extends Balanced text where
  starts : Starts text

theorem Opening.append {first second : String} (hfirst : Opening first)
    (hsecond : Balanced second) : Opening (first ++ second) :=
  ⟨hfirst.toBalanced.append hsecond, hfirst.starts.append second⟩

/-- Braces around a balanced text open and close on its line. -/
theorem Balanced.inBraces {text : String} (h : Balanced text) : Balanced (inBraces text) where
  unbroken := by
    simp only [Cpp.inBraces, String.toList_append, List.mem_append]
    rintro ((hopen | htext) | hclose)
    · exact absurd hopen (by decide)
    · exact h.unbroken htext
    · exact absurd hclose (by decide)
  read depth := by
    have hopen : (codeAt depth).read "\x7b".toList = some (codeAt (depth + 1)) := rfl
    have hclose : (codeAt (depth + 1)).read "\x7d".toList = some (codeAt depth) := rfl
    simp only [Cpp.inBraces, String.toList_append]
    exact Reader.read_of_parts (Reader.read_of_parts hopen (h.read _)) hclose

theorem balanced_commaSeparated {texts : List String} (h : ∀ text ∈ texts, Balanced text) :
    Balanced (commaSeparated texts) := by
  fun_induction commaSeparated texts with
  | case1 => exact Plain.balanced (by decide)
  | case2 text => exact h text List.mem_cons_self
  | case3 text rest _ ih =>
    have hcomma : Balanced ", " := Plain.balanced (by decide)
    have hrest := ih fun other hother => h other (List.mem_cons_of_mem text hother)
    exact ((h text List.mem_cons_self).append hcomma).append hrest

/-- A reader of a literal stays inside of it while it reads an escaped character. -/
theorem read_escapeChar (c : Char) (depth : Nat) :
    (Reader.mk .literal depth).read (escapeChar c) = some ⟨.literal, depth⟩ := by
  unfold escapeChar
  split
  · rfl
  split
  · rfl
  split
  · rfl
  · rename_i hquote hbackslash hbreak
    simp [Reader.step, hquote, hbackslash, hbreak]

/-- A reader stays in a literal for as long as characters are escaped. -/
theorem read_escaped (text : List Char) (depth : Nat) :
    (Reader.mk .literal depth).read (text.flatMap escapeChar) = some ⟨.literal, depth⟩ := by
  induction text with
  | nil => rfl
  | cons c rest ih =>
    rw [List.flatMap_cons]
    exact Reader.read_of_parts (read_escapeChar c depth) ih

/-- A string literal is closed where it ends, whatever its text is. -/
theorem balanced_stringLiteral (text : String) : Balanced (stringLiteral text) where
  unbroken := by
    have hescaped : ∀ c, '\n' ∉ escapeChar c := by
      intro c
      unfold escapeChar
      split
      · decide
      split
      · decide
      split
      · decide
      · rename_i hbreak
        simpa using Ne.symm hbreak
    simp [stringLiteral, hescaped]
  read depth := by
    -- the quotes take a reader into the literal and out of it
    have hopen : (codeAt depth).read ['"'] = some ⟨.literal, depth⟩ := rfl
    have hclose : (Reader.mk .literal depth).read ['"'] = some (codeAt depth) := rfl
    have hbody := read_escaped text.toList depth
    rw [stringLiteral, String.toList_ofList]
    exact Reader.read_of_parts (Reader.read_of_parts hopen hbody) hclose

/-! ## Lines of a layout -/

/-- A text that a line can have: it starts at the margin, and a reader leaves the line at the
depth at which it comes to it. -/
structure LineText (text : String) : Prop where
  unbroken : '\n' ∉ text.toList
  starts : Starts text
  read : ∀ depth, (codeAt depth).read (text.toList ++ ['\n']) = some (codeAt depth)

theorem Opening.lineText {text : String} (h : Opening text) : LineText text :=
  ⟨h.unbroken, h.starts, fun depth => Reader.read_of_parts (h.read depth) rfl⟩

/-- A remark can follow on the same line. -/
theorem Opening.lineText_remark {text remark : String} (h : Opening text)
    (hremark : '\n' ∉ remark.toList) : LineText (text ++ "// " ++ remark) where
  unbroken := by
    simp only [String.toList_append, List.mem_append]
    rintro ((htext | hslashes) | hafter)
    · exact h.unbroken htext
    · exact absurd hslashes (by decide)
    · exact hremark hafter
  starts := (h.starts.append _).append _
  read depth := by
    -- behind the slashes a reader passes over everything up to the line break
    have hslashes : (codeAt depth).read "// ".toList = some ⟨.comment, depth⟩ := rfl
    have hcomment : ∀ rest : List Char, '\n' ∉ rest →
        (Reader.mk .comment depth).read (rest ++ ['\n']) = some (codeAt depth) := by
      intro rest hrest
      induction rest with
      | nil => rfl
      | cons c rest ih =>
        have hc : c ≠ '\n' := fun heq => hrest (heq ▸ List.mem_cons_self)
        rw [List.cons_append, Reader.read_cons]
        simpa [Reader.step, hc] using ih fun hmem => hrest (List.mem_cons_of_mem c hmem)
    simp only [String.toList_append, List.append_assoc]
    exact Reader.read_of_parts (h.read depth) (Reader.read_of_parts hslashes (hcomment _ hremark))

namespace Layout

/-- A text that does not end in white space stands on its line as it is. -/
theorem lineAt_of_ends {text : String} {front : List Char} {last : Char}
    (htext : text.toList = front ++ [last]) (hlast : isBlank last = false) (depth : Nat) :
    lineAt depth text = margin depth ++ text.toList := by
  have htrim : trimEnd text.toList = text.toList := by
    rw [htext]
    exact trimEnd_append_of_not_isBlank hlast front
  unfold lineAt
  rw [htrim, htext]
  split
  · rename_i hnil
    simp at hnil
  · rfl

/-- A line at the margin of `level` is one that can stand at a depth, where it leads to another
depth, if its first character fits there. -/
theorem lines_lineAt {level depth next : Nat} {text : String} {c : Char} {rest : List Char}
    (hunbroken : '\n' ∉ text.toList) (htext : text.toList = c :: rest) (hc : isBlank c = false)
    (hlevel : level = if c = '\x7d' then depth - 1 else depth)
    (hread : (codeAt depth).read (text.toList ++ ['\n']) = some (codeAt next)) :
    Lines depth [lineAt level text] next := by
  have htrim : trimEnd text.toList = c :: trimEnd rest := by
    rw [htext, trimEnd_cons_of_not_isBlank hc]
  have hline : lineAt level text = margin level ++ trimEnd text.toList := by
    unfold lineAt
    rw [htrim]
  refine .cons ?_ (.inr ⟨?_, ?_⟩) ?_ (.nil next)
  · -- there is no line break in the margin, and none in what is left of the text
    obtain ⟨tail, -, hkept⟩ := exists_blanks text.toList
    rw [hline, List.mem_append]
    rintro (hmargin | hmem)
    · exact absurd (List.eq_of_mem_replicate hmargin) (by decide)
    · exact hunbroken (hkept ▸ List.mem_append_left tail hmem)
  · exact ⟨c, trimEnd rest, hc, by rw [hline, htrim, hlevel]⟩
  · rcases trimEnd_ends text.toList with hnil | ⟨front, last, hlast, hends⟩
    · rw [htrim] at hnil
      cases hnil
    · exact ⟨margin level ++ front, last, hlast, by rw [hline, hends, List.append_assoc]⟩
  · rw [hline, List.append_assoc]
    exact Reader.read_of_parts (Reader.read_margin level depth) (Reader.read_trimEnd hread)

/-- A text of at least one line ends in a line break. -/
theorem render_ends {layout : Layout} (h : layout.lines 0 ≠ []) :
    ∃ front, layout.render = front ++ "\n" := by
  obtain ⟨front, last, hlines⟩ := List.eq_nil_or_concat (layout.lines 0) |>.resolve_left h
  refine ⟨String.ofList (unlines front ++ last), ?_⟩
  have hbreak : "\n" = String.ofList ['\n'] := rfl
  rw [render, hlines, hbreak, ← String.ofList_append]
  simp [unlines]

/-- A layout whose lines fit at every depth, and lead back to it. -/
def Fits (layout : Layout) : Prop := ∀ depth, Lines depth (layout.lines depth) depth

namespace Fits

theorem blank : Fits .blank := fun depth => .cons (by simp) (.inl rfl) rfl (.nil depth)

theorem line {text : String} (h : LineText text) : Fits (.line text) := by
  intro depth
  obtain ⟨c, rest, htext, hc, hbrace⟩ := h.starts
  exact lines_lineAt h.unbroken htext hc (by rw [if_neg hbrace]) (h.read depth)

/-- Layouts that fit can be put below each other. -/
theorem append {above below : Layout} (habove : Fits above) (hbelow : Fits below) :
    Fits (above ++ below) := fun depth => (habove depth).append (hbelow depth)

/-- Any number of layouts that fit can. -/
theorem stack {α : Type} {items : List α} {layout : α → Layout}
    (h : ∀ item ∈ items, Fits (layout item)) : Fits (.stack (items.map layout)) := by
  induction items with
  | nil => exact fun depth => .nil depth
  | cons item items ih =>
    have hrest := ih fun other hother => h other (List.mem_cons_of_mem item hother)
    exact (h item List.mem_cons_self).append hrest

/-- The body of a block fits one level deeper, between the line that opens it and the line that
closes it. -/
theorem braced {header close : String} {body : Layout} (hheader : LineText header)
    (hclose : close = "\x7d" ∨ close = "\x7d;") (hbody : Fits body) :
    Fits (.braced header close body) := by
  intro depth
  have hopens : Lines depth [lineAt depth "\x7b"] (depth + 1) :=
    lines_lineAt (c := '\x7b') (by decide) rfl (by decide) rfl rfl
  have hcloses : Lines (depth + 1) [lineAt depth close] depth := by
    rcases hclose with rfl | rfl
    · exact lines_lineAt (c := '\x7d') (by decide) rfl (by decide) rfl rfl
    · exact lines_lineAt (c := '\x7d') (by decide) rfl (by decide) rfl rfl
  exact (((line hheader depth).append hopens).append (hbody (depth + 1))).append hcloses

theorem block {header : String} {body : Layout} (hheader : LineText header) (hbody : Fits body) :
    Fits (.block header body) := braced hheader (.inl rfl) hbody

theorem declaration {header : String} {body : Layout} (hheader : LineText header)
    (hbody : Fits body) : Fits (.declaration header body) := braced hheader (.inr rfl) hbody

/-- A layout that fits is written as a nested text. -/
theorem nested {layout : Layout} (h : Fits layout) : Nested layout.render.toList := by
  rw [render, String.toList_ofList]
  exact (h 0).nested

end Fits
end Layout
end XrManifest.Cpp
