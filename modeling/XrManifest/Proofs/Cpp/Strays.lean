import XrManifest.Proofs.Cpp.GuardedLines
import XrManifest.Proofs.Cpp.Spelling

/-!
# Stray characters

A carriage return ends a line for some readers of a text, and a NUL ends the text for the
functions of C. A literal has them as they are. The main statement is `Struct.Plain.carries`: the
text of plain code has the strays of its literals, in this order, and no others.
-/

namespace XrManifest.Cpp

open XrManifest.Text

/-! ## The strays of a text -/

/-- The characters that end a line or a text for some readers, and that a literal does not
escape. -/
def strayChars : List Char := ['\r', '\x00']

/-- The strays of a text, in order. -/
def strays (text : List Char) : List Char := text.filter (· ∈ strayChars)

/-- The strays of texts one after the other. -/
def straysOf (texts : List String) : List Char := texts.flatMap fun text => strays text.toList

theorem strays_append (first second : List Char) :
    strays (first ++ second) = strays first ++ strays second :=
  List.filter_append first second

theorem straysOf_append (first second : List String) :
    straysOf (first ++ second) = straysOf first ++ straysOf second :=
  List.flatMap_append

theorem straysOf_singleton (text : String) : straysOf [text] = strays text.toList :=
  List.append_nil _

/-- A stray of a text is a character of it. -/
theorem mem_strays {c : Char} (hc : c ∈ strayChars) {text : List Char} :
    c ∈ strays text ↔ c ∈ text := by
  simp [strays, hc]

theorem mem_straysOf {c : Char} (hc : c ∈ strayChars) {texts : List String} :
    c ∈ straysOf texts ↔ ∃ text ∈ texts, c ∈ text.toList := by
  simp only [straysOf, List.mem_flatMap, mem_strays hc]

/-- Plain texts have no strays. -/
theorem Plain.strays_eq_nil {text : String} (h : Plain text) : strays text.toList = [] := by
  refine List.filter_eq_nil_iff.2 fun c hc hstray => ?_
  have hspecial : ∀ d ∈ strayChars, d ∈ specials := by simp [strayChars, specials]
  exact h c hc (hspecial c (of_decide_eq_true hstray))

/-- What is spelled in front of a text has no strays. -/
theorem Plain.strays_append {front : String} (h : Plain front) (text : String) :
    strays (front ++ text).toList = strays text.toList := by
  rw [String.toList_append, Cpp.strays_append, h.strays_eq_nil, List.nil_append]

/-- No stray is escaped, and no escape makes one. -/
theorem strays_escapeChar (c : Char) : strays (escapeChar c) = strays [c] := by
  unfold escapeChar
  split
  · rename_i hquote
    rw [hquote]
    decide
  split
  · rename_i hslash
    rw [hslash]
    decide
  split
  · rename_i hbreak
    rw [hbreak]
    decide
  · rfl

/-- A literal passes the strays of its text on, and adds none. -/
theorem strays_stringLiteral (text : String) :
    strays (stringLiteral text).toList = strays text.toList := by
  have hescaped : ∀ rest : List Char, strays (rest.flatMap escapeChar) = strays rest := by
    intro rest
    induction rest with
    | nil => rfl
    | cons c rest ih =>
      rw [List.flatMap_cons, strays_append, strays_escapeChar, ih, ← strays_append]
      rfl
  rw [stringLiteral, String.toList_ofList, List.cons_append, ← List.singleton_append, strays_append,
    strays_append, hescaped]
  exact List.append_nil _

/-! ## Operands and values -/

def Operand.literals : Operand → List String
  | .literal text => [text]
  | .field object _ => object.literals
  | _ => []

def literals (operands : List Operand) : List String := operands.flatMap Operand.literals

theorem literals_append (first second : List Operand) :
    literals (first ++ second) = literals first ++ literals second :=
  List.flatMap_append

theorem literals_cons (operand : Operand) (rest : List Operand) :
    literals (operand :: rest) = operand.literals ++ literals rest :=
  List.flatMap_cons

theorem literals_singleton (operand : Operand) : literals [operand] = operand.literals :=
  List.append_nil _

/-- The strays of an operand are those of its literal, if it has one. -/
theorem Operand.Plain.strays_text {operand : Operand} (h : operand.Plain) :
    strays operand.text.toList = straysOf operand.literals := by
  induction operand with
  | word spelling => exact (h.elim IsName.plain IsNumeral.plain).strays_eq_nil
  | literal text =>
    -- the only operand that has strays
    exact (strays_stringLiteral text).trans (straysOf_singleton text).symm
  | address name => exact (Cpp.Plain.append (by decide : Cpp.Plain "&") h.plain).strays_eq_nil
  | field object name ih =>
    have hname : Cpp.Plain ("." ++ name) := Cpp.Plain.append (by decide) h.2.plain
    rw [Operand.text, String.append_assoc, String.toList_append, strays_append, ih h.1.plain,
      hname.strays_eq_nil, List.append_nil]
    rfl
  | entry table index =>
    have hentry : Cpp.Plain (table ++ "[" ++ toString index ++ "]") :=
      (((IsName.plain h).append (by decide)).append (isName_nat index).plain).append (by decide)
    exact hentry.strays_eq_nil

/-- The commas between operands are no strays. -/
theorem strays_operands {operands : List Operand} (h : ∀ operand ∈ operands, operand.Plain) :
    strays (commaSeparated (operands.map Operand.text)).toList = straysOf (literals operands) := by
  induction operands with
  | nil => rfl
  | cons operand rest ih =>
    obtain ⟨hoperand, hrest⟩ := List.forall_mem_cons.1 h
    have hcomma : strays ", ".toList = [] := rfl
    rw [literals_cons, straysOf_append, ← hoperand.strays_text, ← ih hrest]
    cases rest with
    | nil => exact (List.append_nil _).symm
    | cons next rest =>
      simp only [List.map_cons, commaSeparated, String.toList_append, strays_append, hcomma,
        List.append_nil]

theorem strays_inBraces (text : String) : strays (inBraces text).toList = strays text.toList := by
  have hopen : strays "\x7b".toList = [] := rfl
  have hclose : strays "\x7d".toList = [] := rfl
  simp only [inBraces, String.toList_append, strays_append, hopen, hclose, List.nil_append,
    List.append_nil]

theorem strays_callText {function : String} {arguments : List Operand} (hfunction : IsName function)
    (harguments : PlainItems arguments) :
    strays (callText function arguments).toList = straysOf (literals arguments) := by
  have hopen : strays "(".toList = [] := rfl
  have hclose : strays ")".toList = [] := rfl
  simp only [callText, String.toList_append, strays_append, hfunction.plain.strays_eq_nil, hopen,
    hclose, strays_operands harguments.each, List.nil_append, List.append_nil]

/-- The strays of a value are those of its literals. -/
theorem Value.Plain.strays_text {value : Value} (h : value.Plain) :
    strays value.text.toList = straysOf (literals value.operands) := by
  cases value with
  | operand item =>
    exact (Operand.Plain.strays_text h).trans (congrArg straysOf (literals_singleton item).symm)
  | call function arguments => exact strays_callText h.1 h.2
  | braces items => exact (strays_inBraces _).trans (strays_operands h.each)

/-! ## Layouts -/

/-- The layout has the strays of the literals in the operands, in order and at any depth. -/
def Layout.Carries (layout : Layout) (operands : List Operand) : Prop :=
  ∀ depth, (layout.lines depth).flatMap strays = straysOf (literals operands)

namespace Layout

theorem strays_margin (depth : Nat) : strays (margin depth) = [] := by
  refine List.filter_eq_nil_iff.2 fun c hc => ?_
  rw [List.eq_of_mem_replicate hc]
  decide

/-- White space at the end of a line may be a stray. A line that ends in a character of the code
has all the strays of its text. -/
theorem carries_line {text close : String} {c : Char} {operands : List Operand}
    (hclose : close.toList = [c]) (hc : isBlank c = false ∧ c ∉ strayChars)
    (h : strays text.toList = straysOf (literals operands)) :
    Carries (.line (text ++ close)) operands := by
  intro depth
  have htext : (text ++ close).toList = text.toList ++ [c] := by
    rw [String.toList_append, hclose]
  have hnone : strays [c] = [] := List.filter_eq_nil_iff.2 (by simpa using hc.2)
  rw [lines, lineAt_of_ends htext hc.1, htext, List.flatMap_singleton, strays_append,
    strays_append, strays_margin, hnone, h, List.append_nil, List.nil_append]

theorem carries_bare {text : String} (h : strays text.toList = []) : Carries (.line text) [] := by
  intro depth
  obtain ⟨tail, -, htext⟩ := exists_blanks text.toList
  have hkept : strays (trimEnd text.toList) = [] := by
    rw [htext, strays_append, List.append_eq_nil_iff] at h
    exact h.1
  rw [lines, List.flatMap_singleton]
  rcases lineAt_eq depth text with ⟨hempty, -⟩ | hfull
  · rw [hempty]
    rfl
  · rw [hfull, strays_append, strays_margin, hkept]
    rfl

theorem carries_blank : Carries .blank [] := fun _ => rfl

theorem carries_empty : Carries .empty [] := fun _ => rfl

/-- Layouts below each other carry their strays one after the other. -/
theorem Carries.append {above below : Layout} {first second : List Operand}
    (habove : Carries above first) (hbelow : Carries below second) :
    Carries (above ++ below) (first ++ second) := by
  intro depth
  show (above.lines depth ++ below.lines depth).flatMap strays = _
  rw [List.flatMap_append, habove depth, hbelow depth, literals_append, straysOf_append]

theorem carries_stack {α : Type} {items : List α} {layout : α → Layout}
    {operands : α → List Operand} (h : ∀ item ∈ items, Carries (layout item) (operands item)) :
    Carries (.stack (items.map layout)) (items.flatMap operands) := by
  induction items with
  | nil => exact carries_empty
  | cons item items ih =>
    obtain ⟨hitem, hitems⟩ := List.forall_mem_cons.1 h
    exact hitem.append (ih hitems)

/-- Braces carry no strays of their own. -/
theorem Carries.braced {header close : String} {body : Layout} {first second : List Operand}
    (hheader : Carries (.line header) first) (hclose : strays close.toList = [])
    (hbody : Carries body second) : Carries (.braced header close body) (first ++ second) := by
  have hopens : Carries (.line header ++ .line "\x7b") (first ++ []) :=
    hheader.append (carries_bare rfl)
  have hindented : Carries (.indented body) second := fun depth => hbody (depth + 1)
  have hall := (hopens.append hindented).append (carries_bare hclose)
  rwa [List.append_nil, List.append_nil] at hall

/-- The text of a layout has the strays of its lines. -/
theorem Carries.strays_render {layout : Layout} {operands : List Operand}
    (h : Carries layout operands) :
    strays layout.render.toList = straysOf (literals operands) := by
  have hlines : ∀ lines : List (List Char), strays (unlines lines) = lines.flatMap strays := by
    intro lines
    induction lines with
    | nil => rfl
    | cons line lines ih =>
      rw [Lines.unlines_cons, ← List.singleton_append, strays_append, strays_append, ih]
      rfl
  rw [render, String.toList_ofList, hlines, h 0]

end Layout

/-! ## Lines of code -/

/-- A declaration carries the strays of its literals. -/
theorem Declaration.Plain.carries {declaration : Declaration} (h : declaration.Plain) :
    Layout.Carries (.line declaration.text) declaration.operands := by
  cases declaration with
  | plain type name =>
    obtain ⟨htype, hname⟩ := h
    have hline : Cpp.Plain (type ++ " " ++ name ++ ";") :=
      ((htype.1.plain.append (by decide)).append hname.plain).append (by decide)
    exact Layout.carries_bare hline.strays_eq_nil
  | tagged type name tag =>
    obtain ⟨htype, hname, htag⟩ := h
    -- only the value of a declaration can have literals
    have hpair : Cpp.Plain (type ++ " " ++ name) :=
      (htype.1.plain.append (by decide)).append hname.plain
    refine Layout.carries_line rfl (by decide) ?_
    rw [hpair.strays_append, strays_inBraces, htag.plain.strays_eq_nil]
    rfl
  | preset type name value =>
    obtain ⟨htype, hname, hvalue⟩ := h
    have hfront : Cpp.Plain (type ++ " " ++ name ++ " = ") :=
      ((htype.1.plain.append (by decide)).append hname.plain).append (by decide)
    refine Layout.carries_line rfl (by decide) ?_
    rw [hfront.strays_append, hvalue.strays_text]
    rfl
  | sized type name length =>
    obtain ⟨htype, hname⟩ := h
    have hfront : Cpp.Plain (type ++ " " ++ name ++ "[") :=
      ((htype.1.plain.append (by decide)).append hname.plain).append (by decide)
    have hline := (hfront.append (isName_nat length).plain).append (by decide : Cpp.Plain "];")
    exact Layout.carries_bare hline.strays_eq_nil
  | listed type name elements =>
    obtain ⟨htype, hname, helements⟩ := h
    have hconst : Cpp.Plain "const " := by decide
    have hfront : Cpp.Plain ("const " ++ type ++ " " ++ name ++ "[] = ") :=
      (((hconst.append htype.plain).append (by decide)).append hname.plain).append (by decide)
    have hspace : strays " ".toList = [] := rfl
    refine Layout.carries_line rfl (by decide) ?_
    rw [hfront.strays_append, strays_inBraces, String.toList_append, strays_append, hspace,
      List.append_nil, Cpp.Plain.strays_append (by decide), strays_operands helements.each]
    rfl

/-- A statement has the strays of its literals. -/
theorem Statement.Plain.carries {statement : Statement} (h : statement.Plain) :
    Layout.Carries (.line statement.text) statement.operands := by
  cases statement with
  | declare declaration => exact Declaration.Plain.carries h.1
  | assign target value =>
    obtain ⟨htarget, -, -, hvalue⟩ := h
    have hequals : strays " = ".toList = [] := rfl
    refine Layout.carries_line rfl (by decide) ?_
    simp only [String.toList_append, strays_append, htarget.strays_text, hequals,
      hvalue.strays_text, List.append_nil, Statement.operands, literals_cons, straysOf_append]
  | call function arguments =>
    exact Layout.carries_line rfl (by decide) (strays_callText h.1 h.2.2)
  | discard function arguments =>
    -- what stands in front of the call is plain
    have hvoid : Cpp.Plain "(void)" := by decide
    exact Layout.carries_line rfl (by decide)
      ((hvoid.strays_append _).trans (strays_callText h.1 h.2))
  | returns value =>
    have hreturn : Cpp.Plain "return " := by decide
    exact Layout.carries_line rfl (by decide)
      ((hreturn.strays_append _).trans (Value.Plain.strays_text h))
  | returnsDefault remark =>
    have hfront : strays ("return " ++ inBraces "" ++ "; // ").toList = [] := rfl
    apply Layout.carries_bare
    rw [Statement.text, String.toList_append, strays_append, hfront, h.1.strays_eq_nil]
    rfl

theorem strays_comparison {left right : Operand} {operator : String} (hleft : left.Plain)
    (hright : right.Plain) (hoperator : Plain operator) :
    strays (left.text ++ operator ++ right.text).toList = straysOf (literals [left, right]) := by
  rw [literals_cons, straysOf_append, literals_singleton, ← hleft.strays_text,
    ← hright.strays_text]
  simp only [String.toList_append, strays_append, hoperator.strays_eq_nil, List.append_nil]

theorem Condition.Plain.strays_text {condition : Condition} (h : condition.Plain) :
    strays condition.text.toList = straysOf (literals condition.operands) := by
  cases condition with
  | succeeded => rfl
  | equal left right =>
    obtain ⟨hleft, hright⟩ := List.forall_mem_cons.1 h
    exact strays_comparison hleft (List.forall_mem_singleton.1 hright) (by decide)
  | differ left right =>
    obtain ⟨hleft, hright⟩ := List.forall_mem_cons.1 h
    exact strays_comparison hleft (List.forall_mem_singleton.1 hright) (by decide)

/-- The start of a branch carries the strays of its literals. -/
theorem Guard.Plain.carries {guard : Guard} (h : guard.Plain) :
    Layout.Carries (.line guard.text) guard.operands := by
  cases guard with
  | when condition =>
    have hopen : Cpp.Plain "if (" := by decide
    exact Layout.carries_line rfl (by decide)
      ((hopen.strays_append _).trans (Condition.Plain.strays_text h))
  | otherwiseWhen condition =>
    have hopen : Cpp.Plain "else if (" := by decide
    exact Layout.carries_line rfl (by decide)
      ((hopen.strays_append _).trans (Condition.Plain.strays_text h))
  | otherwise => exact Layout.carries_bare rfl

/-! ## Methods and structs -/

/-- Code carries the strays of its literals in order. -/
theorem carries_code {code : Code} (hguards : ∀ guard ∈ code.guards, guard.Plain)
    (hstatements : ∀ statement ∈ code.statements, statement.Plain) :
    code.layout.Carries code.operands := by
  cases code with
  | statement line => exact (hstatements line List.mem_cons_self).carries
  | blank => exact Layout.carries_blank
  | branch guard body =>
    have hguard := (hguards guard List.mem_cons_self).carries
    refine hguard.braced rfl (Layout.carries_stack ?_)
    exact fun statement hstatement => (hstatements statement hstatement).carries

/-- The line in front of the body of a method has no literals. -/
theorem Method.Plain.signature {method : Method} (h : method.Plain) :
    Cpp.Plain method.signature := by
  have hparameters : Cpp.Plain (commaSeparated (method.parameters.map Parameter.text)) := by
    apply plain_commaSeparated
    exact List.forall_mem_map.2 fun parameter hmem => (h.parameters parameter hmem).isType.plain
  have hconst : Cpp.Plain (if method.isConst then " const" else "") := by
    split <;> decide
  have hcall : ∀ front : String, Cpp.Plain front → Cpp.Plain (front ++ method.name ++ "(" ++
      commaSeparated (method.parameters.map Parameter.text) ++ ")" ++
      (if method.isConst then " const" else "")) := by
    intro front hfront
    have hopen : Cpp.Plain "(" := by decide
    have hclose : Cpp.Plain ")" := by decide
    have hname := hfront.append h.name.plain
    exact (((hname.append hopen).append hparameters).append hclose).append hconst
  cases hresult : method.result with
  | none =>
    simp only [Method.signature, hresult]
    exact hcall "" (by decide)
  | some type =>
    simp only [Method.signature, hresult]
    exact hcall (type ++ " ") ((h.result type hresult).plain.append (by decide))

/-- A method carries the strays of the literals in its body. -/
theorem Method.Plain.carries {method : Method} (h : method.Plain) :
    method.layout.Carries method.operands := by
  have hsignature := Layout.carries_bare h.signature.strays_eq_nil
  refine hsignature.braced rfl (Layout.carries_stack fun code hcode => carries_code ?_ ?_)
  · exact fun guard hguard => h.guards guard (List.mem_flatMap.2 ⟨code, hcode, hguard⟩)
  · intro statement hstatement
    exact h.statements statement (List.mem_flatMap.2 ⟨code, hcode, hstatement⟩)

def Struct.literals (struct : Struct) : List String :=
  Cpp.literals (struct.members.flatMap Member.operands)

/-- The text of a struct of plain code has the strays of its literals, and no others. -/
theorem Struct.Plain.carries {struct : Struct} (h : struct.Plain) :
    struct.layout.Carries (struct.members.flatMap Member.operands) := by
  have hstruct : ∀ {name : String}, IsName name →
      Layout.Carries (.line ("struct " ++ name)) [] :=
    fun hname => Layout.carries_bare (Cpp.Plain.append (by decide) hname.plain).strays_eq_nil
  refine (hstruct h.name.1).braced rfl (Layout.carries_stack fun member hmember => ?_)
  cases member with
  | blank => exact Layout.carries_blank
  | field declaration => exact (h.fields declaration (mem_fields.2 hmember)).carries
  | method method => exact (h.methods method (mem_methods.2 hmember)).carries
  | record name fields =>
    obtain ⟨hname, hfields⟩ := h.records name fields hmember
    refine (hstruct hname.1).braced rfl (Layout.carries_stack fun declaration hdeclaration => ?_)
    exact (hfields declaration hdeclaration).carries

end XrManifest.Cpp
