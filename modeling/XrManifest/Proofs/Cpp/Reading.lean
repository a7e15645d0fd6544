import Mathlib.Data.List.Basic
import XrManifest.Cpp.Layout

/-!
# Reading C++ text

A reader goes through a text from left to right. It knows whether it is inside of a string
literal or a comment, and how many braces are open. A text is nested when the reader gets
through it, and its lines are indented by the braces around them. The main statement is
`Lines.nested`: lines that fit one below the other make a nested text.
-/

namespace XrManifest.Cpp

open XrManifest.Text

/-! ## Readers -/

/-- What a reader is inside of. Behind a slash it waits for a second one, and behind a
backslash in a literal the next character does not count. -/
inductive Inside where
  | code
  | slash
  | literal
  | escaped
  | comment
deriving DecidableEq, Repr

/-- A reader: what it is inside of, and how many braces are open. -/
structure Reader where
  inside : Inside
  depth : Nat
deriving DecidableEq, Repr

namespace Reader

/-- Reads a character of code. A brace that closes none is refused, and so is a backslash. -/
def readCode (depth : Nat) (c : Char) : Option Reader :=
  if c = '"' then some ⟨.literal, depth⟩
  else if c = '\x7b' then some ⟨.code, depth + 1⟩
  else if c = '\x7d' then if depth = 0 then none else some ⟨.code, depth - 1⟩
  else if c = '/' then some ⟨.slash, depth⟩
  else if c = '\\' then none
  else some ⟨.code, depth⟩

/-- Reads a character. A literal that is not closed on its line is refused. -/
def step (reader : Reader) (c : Char) : Option Reader :=
  match reader.inside with
  | .code => readCode reader.depth c
  | .slash => if c = '/' then some ⟨.comment, reader.depth⟩ else readCode reader.depth c
  | .literal =>
    if c = '\n' then none
    else if c = '\\' then some ⟨.escaped, reader.depth⟩
    else if c = '"' then some ⟨.code, reader.depth⟩
    else some reader
  | .escaped => if c = '\n' then none else some ⟨.literal, reader.depth⟩
  | .comment => if c = '\n' then some ⟨.code, reader.depth⟩ else some reader

/-- Reads a text. -/
def read (reader : Reader) (text : List Char) : Option Reader := text.foldlM step reader

@[simp] theorem read_nil (reader : Reader) : reader.read [] = some reader := rfl

@[simp] theorem read_cons (reader : Reader) (c : Char) (text : List Char) :
    reader.read (c :: text) = (reader.step c).bind fun next => next.read text :=
  List.foldlM_cons

/-- A reader can read a text in two turns. -/
theorem read_append (reader : Reader) (first second : List Char) :
    reader.read (first ++ second) = (reader.read first).bind fun next => next.read second :=
  List.foldlM_append

/-- What is read in two parts is read as a whole. -/
theorem read_of_parts {reader between after : Reader} {first second : List Char}
    (hfirst : reader.read first = some between) (hsecond : between.read second = some after) :
    reader.read (first ++ second) = some after := by
  rw [read_append, hfirst, Option.bind_some, hsecond]

end Reader

/-- A reader of code at a depth. -/
def codeAt (depth : Nat) : Reader := ⟨.code, depth⟩

/-! ## Nested texts -/

/-- A line of a text: it starts behind a line break or with the text, and it goes on up to a
line break or to the end. -/
structure IsLine (text before line after : List Char) : Prop where
  text_eq : text = before ++ (line ++ after)
  start : before = [] ∨ ∃ earlier, before = earlier ++ ['\n']
  stop : after = [] ∨ ∃ later, after = '\n' :: later
  unbroken : '\n' ∉ line

/-- How a line is laid out where `depth` braces are open: it is empty, or four spaces for each
of them stand in front of a character that is no white space, and it does not end in white
space. A closing brace stands one level to the left. -/
def LaidOut (depth : Nat) (line : List Char) : Prop :=
  line = [] ∨
    (∃ c rest, isBlank c = false ∧
      line = Layout.margin (if c = '\x7d' then depth - 1 else depth) ++ c :: rest) ∧
    ∃ front last, isBlank last = false ∧ line = front ++ [last]

/-- A text that a reader gets through: every literal ends on its line, and in the end all
braces are closed, of which there were never too many. Each line is laid out by the braces
that are open at its start. -/
structure Nested (text : List Char) : Prop where
  closed : (codeAt 0).read text = some (codeAt 0)
  lines : ∀ before line after, IsLine text before line after →
    ∃ depth, (codeAt 0).read before = some (codeAt depth) ∧ LaidOut depth line

/-! ## Lines -/

/-- Lines that lead from one depth to another, each laid out by the depth at its start. -/
inductive Lines : Nat → List (List Char) → Nat → Prop where
  | nil (depth : Nat) : Lines depth [] depth
  | cons {depth next last : Nat} {line : List Char} {lines : List (List Char)}
      (unbroken : '\n' ∉ line) (laidOut : LaidOut depth line)
      (read : (codeAt depth).read (line ++ ['\n']) = some (codeAt next))
      (rest : Lines next lines last) : Lines depth (line :: lines) last

namespace Lines

variable {depth between last : Nat} {first second lines : List (List Char)}

/-- Lines can be put together where the depths agree. -/
theorem append (hfirst : Lines depth first between) (hsecond : Lines between second last) :
    Lines depth (first ++ second) last := by
  induction hfirst with
  | nil => exact hsecond
  | cons hunbroken hlaidOut hread _ ih => exact .cons hunbroken hlaidOut hread (ih hsecond)

theorem unlines_cons (line : List Char) (lines : List (List Char)) :
    Layout.unlines (line :: lines) = line ++ '\n' :: Layout.unlines lines := by
  simp [Layout.unlines]

/-- A reader gets through the lines. -/
theorem read_unlines (h : Lines depth lines last) :
    (codeAt depth).read (Layout.unlines lines) = some (codeAt last) := by
  induction h with
  | nil => rfl
  | cons _ _ hread _ ih =>
    rw [unlines_cons, List.append_cons]
    exact Reader.read_of_parts hread ih

/-- Where one text is cut in front of a line break in two ways, with no line break in the
first parts, the cuts are the same. -/
theorem line_unique {line other rest after : List Char} (hline : '\n' ∉ line)
    (hother : '\n' ∉ other) (h : line ++ '\n' :: rest = other ++ after)
    (hafter : after = [] ∨ ∃ later, after = '\n' :: later) :
    line = other ∧ after = '\n' :: rest := by
  rcases hafter with rfl | ⟨later, rfl⟩
  · -- the line break would be in the second line
    rw [List.append_nil] at h
    apply absurd _ hother
    rw [← h]
    simp
  -- both lines end at the first line break, so they are as long as each other
  · induction line generalizing other with
    | nil =>
      cases other with
      | nil => exact ⟨rfl, h.symm⟩
      | cons c other =>
        have hhead : '\n' = c := (List.cons.inj h).1
        exact absurd (hhead ▸ List.mem_cons_self) hother
    | cons c line ih =>
      cases other with
      | nil =>
        have hhead : c = '\n' := (List.cons.inj h).1
        exact absurd (hhead ▸ List.mem_cons_self) hline
      | cons d other =>
        obtain ⟨hhead, htail⟩ := List.cons.inj h
        have hrest := ih (fun hmem => hline (List.mem_cons_of_mem c hmem))
          (fun hmem => hother (List.mem_cons_of_mem d hmem)) htail
        exact ⟨by rw [hhead, hrest.1], hrest.2⟩

/-- What is behind the first line break of a text that ends in one also ends in one. -/
theorem start_of_rest {earlier front rest : List Char}
    (h : earlier ++ ['\n'] = front ++ '\n' :: rest) :
    rest = [] ∨ ∃ between, rest = between ++ ['\n'] := by
  rcases List.eq_nil_or_concat rest with rfl | ⟨init, c, rfl⟩
  · exact .inl rfl
  · have hends : earlier ++ ['\n'] = (front ++ '\n' :: init) ++ [c] := by simpa using h
    obtain ⟨-, hlast⟩ := List.append_inj' hends rfl
    exact .inr ⟨init, by rw [hlast, List.concat_eq_append]⟩

/-- A line of the text is one of the lines, or the empty line behind them. -/
theorem laidOut_of_isLine (h : Lines depth lines last) {before line after : List Char}
    (hline : IsLine (Layout.unlines lines) before line after) :
    ∃ reached, (codeAt depth).read before = some (codeAt reached) ∧ LaidOut reached line := by
  induction h generalizing before with
  | nil depth =>
    have hempty : before = [] ∧ line = [] ∧ after = [] := by
      simpa [Layout.unlines] using hline.text_eq
    rw [hempty.1, hempty.2.1]
    exact ⟨depth, rfl, .inl rfl⟩
  | @cons depth next last head lines hunbroken hlaidOut hread _ ih =>
    have htext := hline.text_eq
    rw [unlines_cons] at htext
    rcases hline.start with rfl | ⟨earlier, rfl⟩
    · -- it is the first line
      obtain ⟨hsame, -⟩ := line_unique hunbroken hline.unbroken htext hline.stop
      rw [← hsame]
      exact ⟨depth, rfl, hlaidOut⟩
    · -- the first line ends at the first line break in front of it
      have hbreak : '\n' ∈ earlier ++ ['\n'] := by simp
      obtain ⟨front, rest, hearlier, hfront⟩ := List.eq_append_cons_of_mem hbreak
      rw [hearlier, List.append_assoc, List.cons_append] at htext
      obtain ⟨hsame, hrest⟩ := line_unique hunbroken hfront htext (.inr ⟨_, rfl⟩)
      have hlater : IsLine (Layout.unlines lines) rest line after := by
        exact ⟨(List.cons.inj hrest).2.symm, start_of_rest hearlier, hline.stop, hline.unbroken⟩
      obtain ⟨reached, hreached, hlaid⟩ := ih hlater
      refine ⟨reached, ?_, hlaid⟩
      rw [hearlier, ← hsame, List.append_cons]
      exact Reader.read_of_parts hread hreached

/-- Lines from depth 0 to depth 0 make a nested text. -/
theorem nested (h : Lines 0 lines 0) : Nested (Layout.unlines lines) :=
  ⟨h.read_unlines, fun _ _ _ hline => h.laidOut_of_isLine hline⟩

end Lines
end XrManifest.Cpp
