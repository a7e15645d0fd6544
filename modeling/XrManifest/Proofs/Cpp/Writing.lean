import XrManifest.Cpp.Writer
import XrManifest.Proofs.Cpp.GuardedLines

/-!
# What a writer writes

A writer writes the layout of its steps at the level it has come to, and it is back at this
level behind them. The main statement is `Step.written_compositional`: the text of steps is put
together from the texts of their parts.
-/

namespace XrManifest.Text

/-- Nothing is left of a text of white space. -/
theorem trimEnd_eq_nil {text : List Char} (h : ∀ c ∈ text, isBlank c = true) :
    trimEnd text = [] := by
  by_contra hkept
  obtain ⟨front, last, hlast, hends⟩ := (trimEnd_ends text).resolve_left hkept
  obtain ⟨tail, -, htext⟩ := exists_blanks text
  have hmem : last ∈ text := by
    rw [htext, hends]
    simp
  rw [h last hmem] at hlast
  cases hlast

end XrManifest.Text

namespace XrManifest.Cpp

open XrManifest.Text

/-! ## Writers and layouts -/

namespace Layout

/-- Where nothing is in a line, nothing is in front of it either. -/
theorem lineAt_of_blank {text : String} (h : trimEnd text.toList = []) (depth : Nat) :
    lineAt depth text = [] := by
  simp only [lineAt, h]

theorem lineAt_of_not_blank {text : String} (h : trimEnd text.toList ≠ []) (depth : Nat) :
    lineAt depth text = margin depth ++ trimEnd text.toList :=
  (lineAt_eq depth text).resolve_left fun hline => h hline.2

end Layout

namespace Writer

variable {α β : Type}

/-- The writer writes the layout at its level, whatever this is and whatever is written in
front, and it comes back to the level. -/
def Writes (action : StateM Writer α) (layout : Layout) : Prop :=
  ∀ writer : Writer, (action.run writer).2 =
    ⟨writer.buffer ++ Layout.unlines (layout.lines writer.indent), writer.indent⟩

theorem run_bind (action : StateM Writer α) (next : α → StateM Writer β) (writer : Writer) :
    ((action >>= next).run writer).2 =
      ((next (action.run writer).1).run (action.run writer).2).2 := rfl

theorem run_push (text : List Char) (writer : Writer) :
    ((push text).run writer).2 = ⟨writer.buffer ++ text, writer.indent⟩ := rfl

theorem margin_succ (level : Nat) :
    Layout.margin (level + 1) = indentation ++ Layout.margin level := rfl

/-- An indentation is written for each number. -/
theorem run_indentations (numbers : List Nat) (writer : Writer) :
    ((numbers.foldlM (fun _ _ => push indentation) () : StateM Writer Unit).run writer).2 =
      ⟨writer.buffer ++ Layout.margin numbers.length, writer.indent⟩ := by
  induction numbers generalizing writer with
  | nil =>
    show writer = ⟨writer.buffer ++ [], writer.indent⟩
    rw [List.append_nil]
  | cons number numbers ih =>
    rw [List.foldlM_cons, run_bind, run_push, ih, List.length_cons, margin_succ,
      List.append_assoc]

theorem line_of_blank {text : String} (h : trimEnd text.toList = []) :
    line text = (do push []; push ['\n']) := by
  rw [line, h]
  rfl

/-- A line with something in it starts with one indentation for each level. -/
theorem line_of_not_blank {text : String} (h : trimEnd text.toList ≠ []) :
    line text = (do
      let writer ← get
      (List.range' 0 writer.indent).foldlM (fun _ _ => push indentation) ()
      push (trimEnd text.toList)
      push ['\n']) := by
  simp [line, h]

/-- A writer writes a line as the layout has it. -/
theorem writes_line (text : String) : Writes (line text) (.line text) := by
  intro writer
  have hlines : Layout.unlines ((Layout.line text).lines writer.indent) =
      Layout.lineAt writer.indent text ++ ['\n'] := by
    simp [Layout.unlines, Layout.lines]
  rw [hlines]
  -- without text there is no margin either
  by_cases hkept : trimEnd text.toList = []
  · rw [line_of_blank hkept, run_bind, run_push, run_push, Layout.lineAt_of_blank hkept,
      List.append_nil, List.nil_append]
  · have hrun : ((line text).run writer).2 = ((do
        (List.range' 0 writer.indent).foldlM (fun _ _ => push indentation) ()
        push (trimEnd text.toList)
        push ['\n'] : StateM Writer Unit).run writer).2 := by
      rw [line_of_not_blank hkept]
      rfl
    rw [hrun, run_bind, run_bind, run_indentations, run_push, run_push, List.length_range',
      Layout.lineAt_of_not_blank hkept]
    simp only [List.append_assoc]

theorem writes_blankLine : Writes blankLine .blank := fun _ => rfl

theorem writes_nothing : Writes (return) .empty := by
  intro writer
  show writer = ⟨writer.buffer ++ [], writer.indent⟩
  rw [List.append_nil]

theorem writes_blankLineIf (condition : Bool) :
    Writes (blankLineIf condition) (.blankIf condition) := by
  cases condition with
  | false => exact writes_nothing
  | true => exact writes_blankLine

/-- What is written next stands below. -/
theorem Writes.bind {action : StateM Writer α} {next : α → StateM Writer β} {above below : Layout}
    (h : Writes action above) (hnext : ∀ a, Writes (next a) below) :
    Writes (action >>= next) (above ++ below) := by
  intro writer
  have hlines : Layout.unlines ((above ++ below).lines writer.indent) =
      Layout.unlines (above.lines writer.indent) ++ Layout.unlines (below.lines writer.indent) :=
    List.flatMap_append
  rw [run_bind, h writer, hnext, hlines, List.append_assoc]

/-- A level that is taken for a body is given back behind it. -/
theorem Writes.indented {body : StateM Writer α} {layout : Layout} (h : Writes body layout) :
    Writes (Writer.indented body) (.indented layout) := by
  intro writer
  have hbody := h { writer with indent := writer.indent + 1 }
  show Writer.mk ((body.run _).2).buffer ((body.run _).2.indent - 1) = _
  rw [hbody]
  rfl

/-- A writer writes a body in braces as the layout has it. -/
theorem Writes.braced {header close : String} {body : StateM Writer α} {layout : Layout}
    (h : Writes body layout) :
    Writes (Writer.braced header close body) (.braced header close layout) := by
  have hclose : ∀ result : α, Writes (line close >>= fun _ => pure result) (.line close) :=
    fun _ => writes_line close
  have hbody := h.indented.bind hclose
  intro writer
  have hall := (writes_line header).bind fun _ => (writes_line "\x7b").bind fun _ => hbody
  have hlayout : (Layout.braced header close layout).lines writer.indent =
      (Layout.line header ++ (Layout.line "\x7b" ++ (.indented layout ++ .line close))).lines
        writer.indent := rfl
  rw [hlayout]
  exact hall writer

end Writer

/-! ## Levels -/

/-- A line one level to the right: four spaces stand in front of it, unless it is empty. -/
def indentedLine (line : List Char) : List Char :=
  if line = [] then [] else Writer.indentation ++ line

/-- A text with all of its lines one level to the right. -/
def indentedText (text : List Char) : List Char :=
  ['\n'].intercalate ((linesOf text).map indentedLine)

/-- The line breaks between lines and an empty last one are those behind the lines. -/
theorem intercalate_lines (lines : List (List Char)) :
    ['\n'].intercalate (lines ++ [[]]) = Layout.unlines lines := by
  induction lines with
  | nil => rfl
  | cons line lines ih =>
    have hne : lines ++ [[]] ≠ [] := by simp
    rw [Lines.unlines_cons, ← ih, List.cons_append, List.intercalate_cons_of_ne_nil hne]
    simp

/-- A text is indented line by line. -/
theorem indentedText_unlines {lines : List (List Char)} (h : ∀ line ∈ lines, '\n' ∉ line) :
    indentedText (Layout.unlines lines) = Layout.unlines (lines.map indentedLine) := by
  rw [indentedText, Layout.linesOf_unlines_of_unbroken h, List.map_append, ← intercalate_lines]
  rfl

namespace Layout

/-- One level deeper, a layout has the same lines one level to the right. -/
theorem lines_succ (layout : Layout) (depth : Nat) :
    layout.lines (depth + 1) = (layout.lines depth).map indentedLine := by
  induction layout generalizing depth with
  | empty => rfl
  | line text =>
    by_cases hkept : trimEnd text.toList = []
    · rw [lines, lines, lineAt_of_blank hkept, lineAt_of_blank hkept]
      rfl
    · have hne : margin depth ++ trimEnd text.toList ≠ [] := by simp [hkept]
      rw [lines, lines, lineAt_of_not_blank hkept, lineAt_of_not_blank hkept, List.map_singleton,
        indentedLine, if_neg hne, Writer.margin_succ, List.append_assoc]
  | blank => rfl
  | append above below habove hbelow =>
    show above.lines (depth + 1) ++ below.lines (depth + 1) = _
    rw [habove, hbelow, ← List.map_append]
    rfl
  | indented body hbody => exact hbody (depth + 1)

/-- The lines of the layout have no line break in them, at any depth. -/
def Unbroken (layout : Layout) : Prop := ∀ depth, ∀ line ∈ layout.lines depth, '\n' ∉ line

/-- The text of an unbroken layout at a level is its text at the margin, moved level by level. -/
theorem Unbroken.unlines_eq {layout : Layout} (h : layout.Unbroken) (level : Nat) :
    unlines (layout.lines level) = indentedText^[level] (unlines (layout.lines 0)) := by
  induction level with
  | zero => rfl
  | succ level ih =>
    rw [Function.iterate_succ_apply', ← ih, indentedText_unlines (h level), layout.lines_succ]

theorem unbroken_line {text : String} (h : '\n' ∉ text.toList) : Unbroken (.line text) := by
  intro depth line hline
  obtain ⟨tail, -, htext⟩ := exists_blanks text.toList
  have hkept : '\n' ∉ trimEnd text.toList :=
    fun hmem => h (htext ▸ List.mem_append_left tail hmem)
  rw [List.mem_singleton.1 hline]
  rcases lineAt_eq depth text with ⟨hempty, -⟩ | hfull
  · rw [hempty]
    exact List.not_mem_nil
  · rw [hfull, List.mem_append, not_or]
    exact ⟨fun hmem => absurd (List.eq_of_mem_replicate hmem) (by decide), hkept⟩

theorem unbroken_empty : Unbroken .empty := fun _ _ hline => absurd hline List.not_mem_nil

theorem unbroken_blank : Unbroken .blank := by
  intro depth line hline
  rw [List.mem_singleton.1 hline]
  exact List.not_mem_nil

/-- Unbroken layouts can be put below each other. -/
theorem Unbroken.append {above below : Layout} (habove : Unbroken above) (hbelow : Unbroken below) :
    Unbroken (above ++ below) := by
  intro depth line hline
  exact (List.mem_append.1 hline).elim (habove depth line) (hbelow depth line)

theorem Unbroken.braced {header close : String} {body : Layout} (hheader : '\n' ∉ header.toList)
    (hclose : '\n' ∉ close.toList) (hbody : Unbroken body) :
    Unbroken (.braced header close body) := by
  have hindented : Unbroken (.indented body) := fun depth => hbody (depth + 1)
  have hopen : Unbroken (.line "\x7b") := unbroken_line (by decide)
  have hopens := (unbroken_line hheader).append hopen
  exact (hopens.append hindented).append (unbroken_line hclose)

/-- A line does not end in white space. -/
theorem ends_of_mem_lines {layout : Layout} {depth : Nat} {line : List Char}
    (h : line ∈ layout.lines depth) :
    line = [] ∨ ∃ front last, isBlank last = false ∧ line = front ++ [last] := by
  induction layout generalizing depth with
  | empty => cases h
  | line text =>
    rw [List.mem_singleton.1 h]
    by_cases hkept : trimEnd text.toList = []
    · exact .inl (lineAt_of_blank hkept depth)
    · obtain ⟨front, last, hlast, hends⟩ := (trimEnd_ends text.toList).resolve_left hkept
      refine .inr ⟨margin depth ++ front, last, hlast, ?_⟩
      rw [lineAt_of_not_blank hkept, hends, List.append_assoc]
  | blank => exact .inl (List.mem_singleton.1 h)
  | append above below habove hbelow => exact (List.mem_append.1 h).elim habove hbelow
  | indented body hbody => exact hbody h

end Layout

/-! ## Steps -/

namespace Step

mutual

def layout : Step → Layout
  | line text => .line text
  | blankLine => .blank
  | blankLineIf condition => .blankIf condition
  | indented body => .indented (layoutAll body)
  | block header body => .block header (layoutAll body)
  | declaration header body => .declaration header (layoutAll body)

def layoutAll : List Step → Layout
  | [] => .empty
  | step :: rest => layout step ++ layoutAll rest

end

mutual

/-- A step is written as its layout. -/
theorem writes_layout (step : Step) : Writer.Writes (write step) (layout step) := by
  cases step with
  | line text => exact Writer.writes_line text
  | blankLine => exact Writer.writes_blankLine
  | blankLineIf condition => exact Writer.writes_blankLineIf condition
  | indented body => exact (writes_layoutAll body).indented
  | block header body => exact (writes_layoutAll body).braced
  | declaration header body => exact (writes_layoutAll body).braced

/-- So are steps one after the other. -/
theorem writes_layoutAll (steps : List Step) :
    Writer.Writes (writeAll steps) (layoutAll steps) := by
  cases steps with
  | nil => exact Writer.writes_nothing
  | cons step rest => exact (writes_layout step).bind fun _ => writes_layoutAll rest

end

mutual

def texts : Step → List String
  | line text => [text]
  | blankLine => []
  | blankLineIf _ => []
  | indented body => textsAll body
  | block header body => header :: textsAll body
  | declaration header body => header :: textsAll body

def textsAll : List Step → List String
  | [] => []
  | step :: rest => texts step ++ textsAll rest

end

mutual

/-- A step without line breaks in its texts has a layout without line breaks in its lines. -/
theorem unbroken_layout {step : Step} (h : ∀ text ∈ texts step, '\n' ∉ text.toList) :
    (layout step).Unbroken := by
  cases step with
  | line text => exact Layout.unbroken_line (h text List.mem_cons_self)
  | blankLine => exact Layout.unbroken_blank
  | blankLineIf condition =>
    cases condition with
    | false => exact Layout.unbroken_empty
    | true => exact Layout.unbroken_blank
  | indented body => exact fun depth => unbroken_layoutAll h (depth + 1)
  | block header body =>
    obtain ⟨hheader, hbody⟩ := List.forall_mem_cons.1 h
    exact .braced hheader (by decide) (unbroken_layoutAll hbody)
  | declaration header body =>
    obtain ⟨hheader, hbody⟩ := List.forall_mem_cons.1 h
    exact .braced hheader (by decide) (unbroken_layoutAll hbody)

/-- Where the texts of steps have no line break in them, neither have their lines. -/
theorem unbroken_layoutAll {steps : List Step}
    (h : ∀ text ∈ textsAll steps, '\n' ∉ text.toList) : (layoutAll steps).Unbroken := by
  cases steps with
  | nil => exact Layout.unbroken_empty
  | cons step rest =>
    obtain ⟨hstep, hrest⟩ := List.forall_mem_append.1 h
    exact (unbroken_layout hstep).append (unbroken_layoutAll hrest)

end

/-! ## Texts -/

/-- What a writer writes is what the layout of its steps renders. -/
theorem written_eq_render (steps : List Step) : written steps = (layoutAll steps).render := by
  have hall := writes_layoutAll steps .new
  rw [written, hall]
  rfl

theorem toList_written (steps : List Step) :
    (written steps).toList = Layout.unlines ((layoutAll steps).lines 0) := by
  rw [written_eq_render, Layout.render, String.toList_ofList]

theorem lines_layoutAll_append (first second : List Step) (depth : Nat) :
    (layoutAll (first ++ second)).lines depth =
      (layoutAll first).lines depth ++ (layoutAll second).lines depth := by
  induction first with
  | nil => rfl
  | cons step first ih =>
    show (layout step).lines depth ++ (layoutAll (first ++ second)).lines depth = _
    rw [ih, ← List.append_assoc]
    rfl

theorem lines_layoutAll_singleton (step : Step) (depth : Nat) :
    (layoutAll [step]).lines depth = (layout step).lines depth :=
  List.append_nil _

theorem toList_written_line (text : String) :
    (written [.line text]).toList = trimEnd text.toList ++ ['\n'] := by
  have hline : Layout.lineAt 0 text = trimEnd text.toList := by
    by_cases hkept : trimEnd text.toList = []
    · rw [Layout.lineAt_of_blank hkept, hkept]
    · rw [Layout.lineAt_of_not_blank hkept]
      rfl
  rw [toList_written, lines_layoutAll_singleton, layout, Layout.lines, hline]
  simp [Layout.unlines]

/-- A step that is written as a layout in braces gives the header, the braces and the body. -/
theorem written_of_braced {step : Step} {header close ending : String} {body : List Step}
    (h : layout step = .braced header close (layoutAll body))
    (hclose : trimEnd close.toList = close.toList) (hending : close ++ "\n" = ending) :
    written [step] = written [.line header] ++ "\x7b\n" ++ written [.indented body] ++ ending := by
  subst hending
  have hlines : (layout step).lines 0 = [Layout.lineAt 0 header] ++ [['\x7b']] ++
      (layoutAll body).lines 1 ++ [Layout.lineAt 0 close] := by
    rw [h]
    rfl
  have hopen : "\x7b\n".toList = Layout.unlines [['\x7b']] := rfl
  have hlast : Layout.unlines [Layout.lineAt 0 close] = (close ++ "\n").toList := by
    have hline := toList_written_line close
    rw [toList_written, lines_layoutAll_singleton, hclose] at hline
    rw [String.toList_append]
    exact hline
  rw [← String.toList_inj]
  simp only [String.toList_append, toList_written, lines_layoutAll_singleton, hlines, hopen,
    layout, Layout.lines, Layout.unlines, List.flatMap_append] at hlast ⊢
  rw [hlast]

/-- Writing is compositional. Let the texts of some steps have no line break in them. What is
written is the layout of the steps, and where more steps follow, their text is put behind it. One
level to the right, four spaces come in front of every line that is not empty. A block and a
declaration have the header, the body one level to the right, and the braces on lines of their
own. Any writer writes the text behind what it has written, at the level it has come to, and is
back at this level in the end. No line ends in white space: a line is its text without the white
space at the end, so a text of nothing else gives an empty line at any level. -/
theorem written_compositional {steps : List Step}
    (h : ∀ text ∈ textsAll steps, '\n' ∉ text.toList) :
    written steps = (layoutAll steps).render ∧
    (∀ more, written (steps ++ more) = written steps ++ written more) ∧
    (written [.indented steps]).toList = indentedText (written steps).toList ∧
    (∀ header, written [.block header steps] =
      written [.line header] ++ "\x7b\n" ++ written [.indented steps] ++ "\x7d\n") ∧
    (∀ header, written [.declaration header steps] =
      written [.line header] ++ "\x7b\n" ++ written [.indented steps] ++ "\x7d;\n") ∧
    (∀ writer : Writer, ((writeAll steps).run writer).2 =
      ⟨writer.buffer ++ indentedText^[writer.indent] (written steps).toList, writer.indent⟩) ∧
    (∀ line ∈ linesOf (written steps).toList,
      line = [] ∨ ∃ front last, isBlank last = false ∧ line = front ++ [last]) ∧
    (∀ text, (written [.line text]).toList = trimEnd text.toList ++ ['\n']) ∧
    ∀ text : String, (∀ c ∈ text.toList, isBlank c = true) → ∀ writer,
      ((Writer.line text).run writer).2 = ⟨writer.buffer ++ ['\n'], writer.indent⟩ := by
  have hunbroken := unbroken_layoutAll h
  refine ⟨written_eq_render steps, ?_, ?_, ?_, ?_, ?_, ?_, toList_written_line, ?_⟩
  · intro more
    rw [← String.toList_inj, String.toList_append]
    simp only [toList_written, lines_layoutAll_append, Layout.unlines, List.flatMap_append]
  · rw [toList_written, toList_written, lines_layoutAll_singleton]
    exact hunbroken.unlines_eq 1
  · intro header
    have hclose : trimEnd "\x7d".toList = "\x7d".toList := by decide
    exact written_of_braced rfl hclose (by decide)
  · intro header
    have hclose : trimEnd "\x7d;".toList = "\x7d;".toList := by decide
    exact written_of_braced rfl hclose (by decide)
  · intro writer
    rw [writes_layoutAll steps writer, hunbroken.unlines_eq, toList_written]
  -- the last of the lines is the empty one behind the last line break
  · intro line hline
    rw [toList_written, Layout.linesOf_unlines_of_unbroken (hunbroken 0)] at hline
    rcases List.mem_append.1 hline with hmem | hlast
    · exact Layout.ends_of_mem_lines hmem
    · exact .inl (List.mem_singleton.1 hlast)
  · intro text hblank writer
    rw [Writer.line_of_blank (trimEnd_eq_nil hblank), Writer.run_bind, Writer.run_push,
      Writer.run_push, List.append_nil]

/-- A block with white space around its texts, and a line of nothing else. -/
theorem written_compositional_block :
    let steps := [.block "if (a) " [.line "  b;\t", .blankLineIf true, .indented [.line "\u3000"]]]
    (∀ text ∈ textsAll steps, '\n' ∉ text.toList) ∧
      written steps = "if (a)\n\x7b\n      b;\n\n\n\x7d\n" ∧
      (written [.indented steps]).toList = indentedText (written steps).toList := by
  intro steps
  have htexts : ∀ text ∈ textsAll steps, '\n' ∉ text.toList := by decide
  have hcompositional := written_compositional htexts
  refine ⟨htexts, ?_, hcompositional.2.2.1⟩
  rw [hcompositional.1]
  decide

end Step
end XrManifest.Cpp
