import XrManifest.Proofs.Cpp.GuardedLines
import XrManifest.Proofs.Cpp.Parsing

/-!
# Parsing structs

The lines of a text are put together by the braces that stand on lines of their own. Then the
pieces are parsed as what can stand at their place: a struct, its members, the code of a method.
The main statement is `Struct.Plain.parses`: the text of a struct of plain code is parsed into
the struct.
-/

namespace XrManifest.Cpp

open XrManifest.Text

/-! ## Pieces of a text -/

/-- A piece of a text. A block has the line in front of its braces, and its last line. -/
inductive Piece where
  | blank
  | line (text : List Char)
  | block (head : List Char) (body : List Piece) (close : List Char)

/-- The pieces since the last brace that is still open, and around them, from the inside out,
the blocks that are open: each has the pieces in front of it, and its head. -/
structure Blocks where
  outer : List (List Piece × List Char)
  pieces : List Piece

namespace Blocks

def add (blocks : Blocks) (pieces : List Piece) : Blocks :=
  { blocks with pieces := blocks.pieces ++ pieces }

/-- Takes a line. A brace that opens a block makes the line in front of it the head. -/
def step (blocks : Blocks) (line : List Char) : Option Blocks :=
  let text := content line
  if text = [] then some (blocks.add [.blank])
  else if text = ['\x7b'] then
    match blocks.pieces.getLast? with
    | some (.line head) => some ⟨(blocks.pieces.dropLast, head) :: blocks.outer, []⟩
    | _ => none
  else if text = ['\x7d'] ∨ text = ['\x7d', ';'] then
    match blocks.outer with
    | (earlier, head) :: outer => some ⟨outer, earlier ++ [.block head blocks.pieces text]⟩
    | [] => none
  else some (blocks.add [.line text])

theorem add_add (blocks : Blocks) (first second : List Piece) :
    (blocks.add first).add second = blocks.add (first ++ second) := by
  rw [add, add, add, List.append_assoc]

end Blocks

/-- The pieces of lines in which every block is closed. -/
def piecesOf (lines : List (List Char)) : Option (List Piece) := do
  let blocks ← lines.foldlM Blocks.step ⟨[], []⟩
  if blocks.outer.isEmpty then return blocks.pieces else none

/-- A text stands in its line as it is, behind the margin. -/
theorem content_lineAt {text : String} (hstarts : Starts text) (hends : Ends text) (depth : Nat) :
    content (Layout.lineAt depth text) = text.toList := by
  obtain ⟨c, rest, htext, hc, -⟩ := hstarts
  have hspace : c ≠ ' ' := by
    rintro rfl
    revert hc
    decide
  rcases Layout.lineAt_eq depth text with ⟨-, hnil⟩ | hline
  · rw [hends.trimEnd_eq, htext] at hnil
    cases hnil
  · rw [hline, hends.trimEnd_eq, content_margin, htext]
    simp [content, hspace]

namespace Layout

/-- A layout whose lines are put together to these pieces, at any depth and behind anything. -/
def Reads (layout : Layout) (pieces : List Piece) : Prop :=
  ∀ depth blocks, (layout.lines depth).foldlM Blocks.step blocks = some (blocks.add pieces)

namespace Reads

theorem blank : Reads .blank [.blank] := fun _ _ => rfl

/-- A line of code is added as it is: it is neither empty nor a brace. -/
theorem step_line {text : String} (hline : LineText text) (hends : Ends text) (depth : Nat)
    (blocks : Blocks) :
    blocks.step (lineAt depth text) = some (blocks.add [.line text.toList]) := by
  obtain ⟨c, rest, htext, -, hclose⟩ := hline.starts
  have hopen : text.toList ≠ ['\x7b'] := by
    intro heq
    -- a reader of code would be deeper behind a brace
    have hread := hline.read 0
    rw [heq] at hread
    cases hread
  have hbrace : ¬(text.toList = ['\x7d'] ∨ text.toList = ['\x7d', ';']) := by
    rw [htext]
    rintro (heq | heq)
    · exact hclose (List.cons.inj heq).1
    · exact hclose (List.cons.inj heq).1
  have hne : text.toList ≠ [] := htext ▸ List.cons_ne_nil c rest
  rw [Blocks.step, content_lineAt hline.starts hends]
  exact (if_neg hne).trans ((if_neg hopen).trans (if_neg hbrace))

theorem line {text : String} (hline : LineText text) (hends : Ends text) :
    Reads (.line text) [.line text.toList] := by
  intro depth blocks
  rw [lines, List.foldlM_cons, step_line hline hends]
  rfl

/-- The pieces of layouts below each other stand behind each other. -/
theorem append {above below : Layout} {first second : List Piece} (habove : Reads above first)
    (hbelow : Reads below second) : Reads (above ++ below) (first ++ second) := by
  intro depth blocks
  have hlines : (above ++ below).lines depth = above.lines depth ++ below.lines depth := rfl
  rw [hlines, List.foldlM_append, habove depth blocks, ← Blocks.add_add]
  exact hbelow depth (blocks.add first)

/-- A block is one piece. -/
theorem braced {header close : String} {body : Layout} {pieces : List Piece}
    (hheader : LineText header) (hends : Ends header)
    (hclose : close = "\x7d" ∨ close = "\x7d;") (hbody : Reads body pieces) :
    Reads (.braced header close body) [.block header.toList pieces close.toList] := by
  intro depth blocks
  have hlines : (Layout.braced header close body).lines depth =
      lineAt depth header :: lineAt depth "\x7b" ::
        (body.lines (depth + 1) ++ [lineAt depth close]) := rfl
  -- the brace makes the header the head of a block
  have hopens : (blocks.add [.line header.toList]).step (lineAt depth "\x7b") =
      some ⟨(blocks.pieces, header.toList) :: blocks.outer, []⟩ := by
    have hcontent : content (lineAt depth "\x7b") = ['\x7b'] := content_margin depth ['\x7b']
    rw [Blocks.step, hcontent]
    simp [Blocks.add]
  -- the last line closes the block behind what was there
  have hcloses : (Blocks.mk ((blocks.pieces, header.toList) :: blocks.outer) pieces).step
      (lineAt depth close) = some (blocks.add [.block header.toList pieces close.toList]) := by
    rcases hclose with rfl | rfl
    · have hcontent : content (lineAt depth "\x7d") = ['\x7d'] := content_margin depth ['\x7d']
      rw [Blocks.step, hcontent]
      simp [Blocks.add]
    · have hcontent : content (lineAt depth "\x7d;") = ['\x7d', ';'] :=
        content_margin depth ['\x7d', ';']
      rw [Blocks.step, hcontent]
      simp [Blocks.add]
  have hbodies : (Blocks.mk ((blocks.pieces, header.toList) :: blocks.outer) []).add pieces =
      ⟨(blocks.pieces, header.toList) :: blocks.outer, pieces⟩ := rfl
  rw [hlines, List.foldlM_cons, step_line hheader hends, Option.bind_eq_bind, Option.bind_some,
    List.foldlM_cons, hopens, Option.bind_eq_bind, Option.bind_some, List.foldlM_append,
    hbody (depth + 1), Option.bind_eq_bind, Option.bind_some, hbodies, List.foldlM_cons, hcloses]
  rfl

end Reads

/-- A layout that is put together to one piece, which is parsed as `tree`. -/
def ParsesTo {α : Type} (layout : Layout) (parse : Piece → Option α) (tree : α) : Prop :=
  ∃ piece, layout.Reads [piece] ∧ parse piece = some tree

/-- Trees below each other make as many pieces, each of which is parsed into its tree. -/
theorem reads_stack {α : Type} {trees : List α} {layout : α → Layout} {parse : Piece → Option α}
    (h : ∀ tree ∈ trees, (layout tree).ParsesTo parse tree) :
    ∃ pieces, (stack (trees.map layout)).Reads pieces ∧ pieces.mapM parse = some trees := by
  induction trees with
  | nil => exact ⟨[], fun _ blocks => by simp [stack, lines, Blocks.add], rfl⟩
  | cons tree trees ih =>
    obtain ⟨htree, htrees⟩ := List.forall_mem_cons.1 h
    obtain ⟨piece, hreads, hparse⟩ := htree
    obtain ⟨pieces, hreads', hparse'⟩ := ih htrees
    exact ⟨[piece] ++ pieces, hreads.append hreads', by simp [hparse, hparse']⟩

end Layout

/-! ## The parts of methods and structs -/

def Statement.parsePiece : Piece → Option Statement
  | .line text => Statement.parse text
  | _ => none

def Declaration.parsePiece : Piece → Option Declaration
  | .line text => Declaration.parse text
  | _ => none

/-- A piece of the body of a method. -/
def Code.parse : Piece → Option Code
  | .blank => some .blank
  | .line text => do return .statement (← Statement.parse text)
  | .block head body close => do
    let guard ← Guard.parse head
    let statements ← body.mapM Statement.parsePiece
    if close = ['\x7d'] then return .branch guard statements else none

theorem Declaration.ends (declaration : Declaration) : Ends declaration.text := by
  cases declaration with
  | sized => exact Ends.append _ (by decide)
  | _ => exact Ends.append _ (by decide : Ends ";")

/-- Only a remark can stand behind the semicolon of a statement. -/
theorem Statement.Plain.ends {statement : Statement} (h : statement.Plain) :
    Ends statement.text := by
  have hsemicolon : Ends ";" := by decide
  cases statement with
  | declare declaration => exact declaration.ends
  | returnsDefault remark => exact Ends.append _ h.2
  | _ => exact Ends.append _ hsemicolon

theorem Guard.ends (guard : Guard) : Ends guard.text := by
  cases guard with
  | otherwise => decide
  | _ => exact Ends.append _ (by decide)

theorem Statement.Plain.parses {statement : Statement} (h : statement.Plain) :
    (Layout.line statement.text).ParsesTo Statement.parsePiece statement :=
  ⟨_, .line h.lineText h.ends, Statement.parse_text h⟩

theorem Declaration.Plain.parses {declaration : Declaration} (h : declaration.Plain) :
    (Layout.line declaration.text).ParsesTo Declaration.parsePiece declaration :=
  ⟨_, .line h.lineText (Declaration.ends declaration), Declaration.parse_text h⟩

/-- The code of a method is parsed branch by branch. -/
theorem parses_code {code : Code} (hguards : ∀ guard ∈ code.guards, guard.Plain)
    (hstatements : ∀ statement ∈ code.statements, statement.Plain) :
    code.layout.ParsesTo Code.parse code := by
  cases code with
  | statement line =>
    have hline := hstatements line List.mem_cons_self
    exact ⟨_, .line hline.lineText hline.ends, by rw [Code.parse, Statement.parse_text hline]; rfl⟩
  | blank => exact ⟨_, .blank, rfl⟩
  | branch guard body =>
    have hguard := hguards guard List.mem_cons_self
    obtain ⟨pieces, hreads, hparse⟩ :=
      Layout.reads_stack fun statement hstatement => (hstatements statement hstatement).parses
    refine ⟨_, .braced hguard.lineText guard.ends (.inl rfl) hreads, ?_⟩
    rw [Code.parse, Guard.parse_text hguard, hparse]
    rfl

/-! ## Methods -/

def parseParameter (text : List Char) : Option Parameter := do
  let (type, name) ← parseHead text
  return ⟨type, name⟩

/-- The parameters between the brackets of a method. -/
def parseParameters (text : List Char) : Option (List Parameter) :=
  if text = [] then some [] else ((text.splitOn ',').map content).mapM parseParameter

/-- The result of a method and its name. Without a result there is nothing but the name. -/
def parseFront (text : List Char) : Option (Option String × String) :=
  if ' ' ∈ text then do
    let (type, name) ← parseHead text
    return (some type, name)
  else do return (none, ← parseName text)

def Method.parse (head : List Char) (body : List Piece) : Option Method := do
  let (result, name) ← parseFront (head.takeWhile (· ≠ '('))
  let rest := (head.dropWhile (· ≠ '(')).tail
  let parameters ← parseParameters (rest.takeWhile (· ≠ ')'))
  let behind := rest.dropWhile (· ≠ ')')
  let isConst ←
    if behind = [')'] then some false else if behind = ") const".toList then some true else none
  return ⟨result, name, parameters, isConst, ← body.mapM Code.parse⟩

/-- Texts without commas are found between commas. -/
theorem map_content_splitOn {texts : List String} (hne : texts ≠ [])
    (h : ∀ text ∈ texts, ',' ∉ text.toList ∧ Starts text) (count : Nat) :
    ((List.replicate count ' ' ++ (commaSeparated texts).toList).splitOn ',').map content =
      texts.map String.toList := by
  have hspaces : ∀ count, ',' ∉ List.replicate count ' ' := by simp
  have hcontent : ∀ text ∈ texts, ∀ count,
      content (List.replicate count ' ' ++ text.toList) = text.toList := by
    intro text htext count
    obtain ⟨c, rest, hcons, hc, -⟩ := (h text htext).2
    have hc' : c ≠ ' ' := by
      rintro rfl
      revert hc
      decide
    rw [content, List.dropWhile_append_of_pos (by simp), hcons]
    simp [hc']
  -- the space behind a comma stands in front of the next text, where it does not count
  induction texts generalizing count with
  | nil => exact absurd rfl hne
  | cons text texts ih =>
    obtain ⟨htext, htexts⟩ := List.forall_mem_cons.1 h
    obtain ⟨hfirst, hothers⟩ := List.forall_mem_cons.1 hcontent
    have hcomma : ',' ∉ List.replicate count ' ' ++ text.toList := by
      simp [htext.1]
    cases texts with
    | nil =>
      rw [commaSeparated, List.splitOn_eq_singleton hcomma]
      simp [hfirst]
    | cons second texts =>
      have hsplit : List.replicate count ' ' ++ (commaSeparated (text :: second :: texts)).toList =
          (List.replicate count ' ' ++ text.toList) ++
            ',' :: (List.replicate 1 ' ' ++ (commaSeparated (second :: texts)).toList) := by
        simp [commaSeparated]
      rw [hsplit, List.splitOn_append_cons_self_of_not_mem hcomma, List.map_cons, hfirst,
        ih (List.cons_ne_nil _ _) htexts 1 hothers]
      rfl

theorem parseParameter_text {parameter : Parameter} (h : parameter.Plain) :
    parseParameter parameter.text.toList = some parameter := by
  have htext : parameter.text.toList = parameter.type.toList ++ ' ' :: parameter.name.toList := by
    simp [Parameter.text]
  rw [parseParameter, htext, parseHead_text h.1.1 h.2]
  rfl

/-- The commas between parameters are the only ones. -/
theorem parseParameters_text {parameters : List Parameter}
    (h : ∀ parameter ∈ parameters, parameter.Plain) :
    parseParameters (commaSeparated (parameters.map Parameter.text)).toList = some parameters := by
  have hparse : (parameters.map fun parameter => parameter.text.toList).mapM parseParameter =
      some parameters := by
    induction parameters with
    | nil => rfl
    | cons parameter others ih =>
      obtain ⟨hparameter, hothers⟩ := List.forall_mem_cons.1 h
      simp [parseParameter_text hparameter, ih hothers]
  cases parameters with
  | nil => rfl
  | cons parameter others =>
    have htexts : ∀ text ∈ (parameter :: others).map Parameter.text,
        ',' ∉ text.toList ∧ Starts text := by
      intro text htext
      obtain ⟨found, hfound, rfl⟩ := List.mem_map.1 htext
      have hplain := h found hfound
      exact ⟨hplain.isType.not_mem (by decide), (hplain.1.2.append _).append _⟩
    have hlist : (parameter :: others).map Parameter.text ≠ [] := by simp
    have hsplit := map_content_splitOn hlist htexts 0
    rw [List.replicate_zero, List.nil_append] at hsplit
    have hne : (commaSeparated ((parameter :: others).map Parameter.text)).toList ≠ [] := by
      cases others <;> simp [commaSeparated, Parameter.text]
    rw [parseParameters, if_neg hne, hsplit, List.map_map]
    exact hparse

/-- A mark that is in none of the texts is not between them either. -/
theorem not_mem_commaSeparated {mark : Char} {texts : List String} (hmark : mark ∉ [',', ' '])
    (h : ∀ text ∈ texts, mark ∉ text.toList) : mark ∉ (commaSeparated texts).toList := by
  fun_induction commaSeparated texts with
  | case1 => simp
  | case2 text => exact h text List.mem_cons_self
  | case3 text rest _ ih =>
    have hrest := ih fun other hother => h other (List.mem_cons_of_mem text hother)
    simp only [String.toList_append, List.mem_append, not_or]
    exact ⟨⟨h text List.mem_cons_self, hmark⟩, hrest⟩

/-- What a method has in front of its parameters. -/
def Method.front (method : Method) : List Char :=
  match method.result with
  | some type => type.toList ++ ' ' :: method.name.toList
  | none => method.name.toList

theorem Method.toList_signature (method : Method) :
    method.signature.toList = method.front ++
      '(' :: ((commaSeparated (method.parameters.map Parameter.text)).toList ++
        ')' :: (if method.isConst then " const" else "").toList) := by
  obtain ⟨result, name, parameters, isConst, body⟩ := method
  cases result <;> simp [signature, front]

/-- There is no bracket in front of the first one, and the name is the last word there. -/
theorem Method.Plain.parse_front {method : Method} (h : method.Plain) :
    method.front.all (· ≠ '(') = true ∧
      parseFront method.front = some (method.result, method.name) := by
  have hopen : inType '(' = false := by decide
  unfold front
  cases hresult : method.result with
  | none =>
    have hspace : ' ' ∉ method.name.toList := h.name.not_mem (by decide)
    refine ⟨h.name.isType.all_ne hopen, ?_⟩
    simp [parseFront, hspace, parseName_text h.name]
  | some type =>
    have hspace : ' ' ∈ type.toList ++ ' ' :: method.name.toList := by simp
    constructor
    · rw [List.all_append, List.all_cons, (h.result type hresult).all_ne hopen,
        h.name.isType.all_ne hopen]
      rfl
    · rw [parseFront, if_pos hspace, parseHead_text (h.result type hresult) h.name]
      rfl

/-- The line of a method gives all but its body, which its pieces give. -/
theorem Method.parse_signature {method : Method} (h : method.Plain) {pieces : List Piece}
    (hbody : pieces.mapM Code.parse = some method.body) :
    Method.parse method.signature.toList pieces = some method := by
  obtain ⟨hfront, hparse⟩ := h.parse_front
  have hopen : ∀ more, ∀ c ∈ ('(' :: more : List Char).head?, decide (c ≠ '(') = false := by
    rintro more c ⟨⟩
    decide
  -- no bracket stands between those of the parameters
  have hparameters : (commaSeparated (method.parameters.map Parameter.text)).toList.all (· ≠ ')') =
      true := by
    rw [List.all_eq_true]
    rintro c hc
    simp only [decide_eq_true_eq]
    rintro rfl
    refine not_mem_commaSeparated (by decide) ?_ hc
    intro text htext
    obtain ⟨parameter, hparameter, rfl⟩ := List.mem_map.1 htext
    exact (h.parameters parameter hparameter).isType.not_mem (by decide)
  have hclose : ∀ more, ∀ c ∈ (')' :: more : List Char).head?, decide (c ≠ ')') = false := by
    rintro more c ⟨⟩
    decide
  rw [method.toList_signature, Method.parse, takeWhile_cut hfront (hopen _),
    dropWhile_cut hfront (hopen _), List.tail_cons, hparse]
  simp only [Option.bind_eq_bind, Option.bind_some, takeWhile_cut hparameters (hclose _),
    dropWhile_cut hparameters (hclose _), parseParameters_text h.parameters, hbody]
  cases hconst : method.isConst <;> simp [← hconst]

/-- A method of plain code is one block, which is parsed into it. -/
theorem Method.Plain.parses {method : Method} (h : method.Plain) :
    ∃ pieces, method.layout.Reads [.block method.signature.toList pieces ['\x7d']] ∧
      Method.parse method.signature.toList pieces = some method := by
  have hends : Ends method.signature := by
    unfold Method.signature
    cases method.isConst with
    | true => exact Ends.append _ (by decide)
    | false =>
      rw [String.append_assoc]
      exact Ends.append _ (by decide)
  obtain ⟨pieces, hreads, hbody⟩ : ∃ pieces,
      (Layout.stack (method.body.map Code.layout)).Reads pieces ∧
        pieces.mapM Code.parse = some method.body := by
    refine Layout.reads_stack fun code hcode => parses_code ?_ ?_
    · exact fun guard hguard => h.guards guard (List.mem_flatMap.2 ⟨code, hcode, hguard⟩)
    · intro statement hstatement
      exact h.statements statement (List.mem_flatMap.2 ⟨code, hcode, hstatement⟩)
  exact ⟨pieces, .braced h.lineText hends (.inl rfl) hreads, Method.parse_signature h hbody⟩

/-! ## Structs -/

/-- A member of a struct. A struct has a semicolon behind its braces, and a method has none. -/
def Member.parse : Piece → Option Member
  | .blank => some .blank
  | .line text => do return .field (← Declaration.parse text)
  | .block head body close => do
    if close = ['\x7d'] then return .method (← Method.parse head body)
    else
      let name ← parseName (← head.dropPrefix? "struct ".toList)
      return .record name (← body.mapM Declaration.parsePiece)

def Struct.parse : Piece → Option Struct
  | .block head body close => do
    let name ← parseName (← head.dropPrefix? "struct ".toList)
    let members ← body.mapM Member.parse
    if close = ['\x7d', ';'] then return ⟨name, members⟩ else none
  | _ => none

/-- The text of a struct of plain code is parsed into the struct. -/
theorem Struct.Plain.parses {struct : Struct} (h : struct.Plain) :
    struct.layout.ParsesTo Struct.parse struct := by
  have hhead : ∀ name, ("struct " ++ name).toList.dropPrefix? "struct ".toList =
      some name.toList := by
    intro name
    rw [String.toList_append, dropPrefix?_append]
  -- each member is a piece of its own
  have hmembers : ∀ member ∈ struct.members, member.layout.ParsesTo Member.parse member := by
    intro member hmember
    cases member with
    | blank => exact ⟨_, .blank, rfl⟩
    | field declaration =>
      have hfield := h.fields declaration (mem_fields.2 hmember)
      obtain ⟨piece, hreads, hparse⟩ := hfield.parses
      refine ⟨_, .line hfield.lineText declaration.ends, ?_⟩
      rw [Member.parse, Declaration.parse_text hfield]
      rfl
    | method method =>
      obtain ⟨pieces, hreads, hparse⟩ := (h.methods method (mem_methods.2 hmember)).parses
      refine ⟨_, hreads, ?_⟩
      simp [Member.parse, hparse]
    | record name fields =>
      obtain ⟨⟨hname, hne⟩, hfields⟩ := h.records name fields hmember
      obtain ⟨pieces, hreads, hparse⟩ :=
        Layout.reads_stack fun field hfield => (hfields field hfield).parses
      refine ⟨_, .braced (opening_struct hname).lineText (Ends.append _ (hname.ends hne))
        (.inr rfl) hreads, ?_⟩
      rw [Member.parse, if_neg (by decide), hhead, hparse]
      simp [parseName_text hname]
  obtain ⟨pieces, hreads, hparse⟩ := Layout.reads_stack hmembers
  refine ⟨_, .braced (opening_struct h.name.1).lineText
    (Ends.append _ (h.name.1.ends h.name.2)) (.inr rfl) hreads, ?_⟩
  rw [Struct.parse, hhead, hparse]
  simp [parseName_text h.name.1]

end XrManifest.Cpp
