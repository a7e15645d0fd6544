import XrManifest.Proofs.Cpp.Contents
import XrManifest.Proofs.Cpp.Words

/-!
# Plain code

Trees of C++ code in which every name, type and number is spelled like one. Literals may have
any text. The main statement is `Struct.Plain.fits`: the text of a struct of plain code is
nested.
-/

namespace XrManifest.Cpp

/-! ## Operands and values -/

/-- A variable, or a member of one. A number is none: it would take the points behind it. -/
def Operand.IsObject : Operand → Prop
  | .word name => IsName name ∧ startsWithDigit name.toList = false
  | .field object name => object.IsObject ∧ IsName name
  | _ => False

/-- An operand whose spellings are plain. -/
def Operand.Plain : Operand → Prop
  | .word spelling => IsName spelling ∨ IsNumeral spelling
  | .literal _ => True
  | .address name => IsName name
  | .field object name => object.IsObject ∧ IsName name
  | .entry table _ => IsName table

/-- Variables and their members are plain. -/
theorem Operand.IsObject.plain {operand : Operand} (h : operand.IsObject) : operand.Plain := by
  cases operand with
  | word name => exact .inl h.1
  | field object name => exact h
  | _ => exact h.elim

/-- Whatever its literal holds, an operand opens and closes nothing. -/
theorem Operand.Plain.balanced {operand : Operand} (h : operand.Plain) :
    Balanced operand.text := by
  induction operand with
  | word spelling => exact (h.elim IsName.plain IsNumeral.plain).balanced
  | literal text =>
    -- this is where the texts of a manifest go, and they may be anything
    exact balanced_stringLiteral text
  | address name => exact (Cpp.Plain.append (by decide : Cpp.Plain "&") h.plain).balanced
  | field object name ih =>
    have hdot : Balanced "." := Cpp.Plain.balanced (by decide)
    exact ((ih h.1.plain).append hdot).append h.2.plain.balanced
  | entry table index =>
    have hindex : Cpp.Plain (table ++ "[" ++ toString index ++ "]") :=
      (((IsName.plain h).append (by decide)).append (isName_nat index).plain).append (by decide)
    exact hindex.balanced

/-- Operands with commas between them. An empty word in front could not be told from no operand
at all. -/
structure PlainItems (items : List Operand) : Prop where
  each : ∀ operand ∈ items, operand.Plain
  first : items.head? ≠ some (.word "")

theorem plainItems_word {spelling : String} (h : IsName spelling) (hne : spelling ≠ "") :
    PlainItems [.word spelling] where
  each operand hoperand := List.mem_singleton.1 hoperand ▸ .inl h
  first := by simpa using hne

/-- Operands with commas between them open and close nothing. -/
theorem PlainItems.balanced {items : List Operand} (h : PlainItems items) :
    Balanced (commaSeparated (items.map Operand.text)) := by
  apply balanced_commaSeparated
  intro text htext
  obtain ⟨operand, hoperand, rfl⟩ := List.mem_map.1 htext
  exact (h.each operand hoperand).balanced

def Value.Plain : Value → Prop
  | .operand item => item.Plain
  | .call function arguments => IsName function ∧ PlainItems arguments
  | .braces items => PlainItems items

/-- The brackets of a call are no braces. -/
theorem balanced_callText {function : String} {arguments : List Operand}
    (hfunction : IsName function) (harguments : PlainItems arguments) :
    Balanced (callText function arguments) := by
  have hopen : Plain (function ++ "(") := hfunction.plain.append (by decide)
  have hclose : Balanced ")" := Plain.balanced (by decide)
  exact (hopen.balanced.append harguments.balanced).append hclose

/-- The braces of a value are closed behind it. -/
theorem Value.Plain.balanced {value : Value} (h : value.Plain) : Balanced value.text := by
  cases value with
  | operand item => exact Operand.Plain.balanced h
  | call function arguments => exact balanced_callText h.1 h.2
  | braces items => exact (PlainItems.balanced h).inBraces

/-! ## Declarations and statements -/

/-- A spelling that can start a line. -/
def Leading (text : String) : Prop := Plain text ∧ Starts text

instance (text : String) : Decidable (Leading text) :=
  inferInstanceAs (Decidable (Plain text ∧ Starts text))

/-- A spelling that can start a line is not empty. -/
theorem Leading.opening {text : String} (h : Leading text) : Opening text :=
  ⟨h.1.balanced, h.2⟩

/-- A type that can start a line. -/
def LeadingType (type : String) : Prop := IsType type ∧ Starts type

instance (type : String) : Decidable (LeadingType type) :=
  inferInstanceAs (Decidable (IsType type ∧ Starts type))

theorem LeadingType.opening {type : String} (h : LeadingType type) : Opening type :=
  ⟨h.1.plain.balanced, h.2⟩

/-- A declaration whose spellings are plain. Most start a line with their type. -/
def Declaration.Plain : Declaration → Prop
  | .plain type name => LeadingType type ∧ IsName name
  | .tagged type name tag => LeadingType type ∧ IsName name ∧ IsName tag
  | .preset type name value => LeadingType type ∧ IsName name ∧ value.Plain
  | .sized type name _ => LeadingType type ∧ IsName name
  | .listed type name elements => IsType type ∧ IsName name ∧ PlainItems elements

/-- The text of a declaration fits into a line. -/
theorem Declaration.Plain.lineText {declaration : Declaration} (h : declaration.Plain) :
    LineText declaration.text := by
  -- each part is balanced, and the first one starts the line
  have hspace : Balanced " " := Cpp.Plain.balanced (by decide)
  have hsemicolon : Balanced ";" := Cpp.Plain.balanced (by decide)
  cases declaration with
  | plain type name =>
    obtain ⟨htype, hname⟩ := h
    have hpair := (htype.opening.append hspace).append hname.plain.balanced
    exact (hpair.append hsemicolon).lineText
  | tagged type name tag =>
    obtain ⟨htype, hname, htag⟩ := h
    have hpair := (htype.opening.append hspace).append hname.plain.balanced
    exact ((hpair.append htag.plain.balanced.inBraces).append hsemicolon).lineText
  | preset type name value =>
    obtain ⟨htype, hname, hvalue⟩ := h
    have hpair := (htype.opening.append hspace).append hname.plain.balanced
    have hequals : Balanced " = " := Cpp.Plain.balanced (by decide)
    exact (((hpair.append hequals).append hvalue.balanced).append hsemicolon).lineText
  | sized type name length =>
    obtain ⟨htype, hname⟩ := h
    have hpair := (htype.opening.append hspace).append hname.plain.balanced
    have hopen : Balanced "[" := Cpp.Plain.balanced (by decide)
    have hclose : Balanced "];" := Cpp.Plain.balanced (by decide)
    exact (((hpair.append hopen).append (isName_nat length).plain.balanced).append hclose).lineText
  | listed type name elements =>
    obtain ⟨htype, hname, helements⟩ := h
    have hconst : Opening "const " := Leading.opening (by decide)
    have hpair := ((hconst.append htype.plain.balanced).append hspace).append hname.plain.balanced
    have hequals : Balanced "[] = " := Cpp.Plain.balanced (by decide)
    have hlist := (hspace.append helements.balanced).append hspace
    exact (((hpair.append hequals).append hlist.inBraces).append hsemicolon).lineText

/-- A statement whose spellings are plain. Its target or its function starts the line, if it
has one, and is not taken for the end of a method. -/
def Statement.Plain : Statement → Prop
  | .declare declaration =>
    declaration.Plain ∧ IsName declaration.type ∧ declaration.type ≠ "return"
  | .assign target value =>
    target.Plain ∧ Starts target.text ∧ target ≠ .word "return" ∧ value.Plain
  | .call function arguments => IsName function ∧ function ≠ "" ∧ PlainItems arguments
  | .discard function arguments => IsName function ∧ PlainItems arguments
  | .returns value => value.Plain
  | .returnsDefault remark => Cpp.Plain remark ∧ Ends remark

/-- The text of a statement fits into a line. -/
theorem Statement.Plain.lineText {statement : Statement} (h : statement.Plain) :
    LineText statement.text := by
  have hsemicolon : Balanced ";" := Cpp.Plain.balanced (by decide)
  have hreturn : Opening "return " := Leading.opening (by decide)
  cases statement with
  | declare declaration => exact Declaration.Plain.lineText h.1
  | assign target value =>
    obtain ⟨htarget, hstarts, -, hvalue⟩ := h
    have hopening : Opening target.text := ⟨htarget.balanced, hstarts⟩
    have hequals : Balanced " = " := Cpp.Plain.balanced (by decide)
    exact (((hopening.append hequals).append hvalue.balanced).append hsemicolon).lineText
  | call function arguments =>
    obtain ⟨hfunction, hne, harguments⟩ := h
    have hcall : Opening (callText function arguments) :=
      ⟨balanced_callText hfunction harguments,
        ((((hfunction.starts hne).append _).append _).append _)⟩
    exact (hcall.append hsemicolon).lineText
  | discard function arguments =>
    have hvoid : Opening "(void)" := Leading.opening (by decide)
    exact ((hvoid.append (balanced_callText h.1 h.2)).append hsemicolon).lineText
  | returns value => exact ((hreturn.append (Value.Plain.balanced h)).append hsemicolon).lineText
  | returnsDefault remark =>
    have hbraces : Balanced (inBraces "") := (Cpp.Plain.balanced (by decide)).inBraces
    have hend : Balanced "; " := Cpp.Plain.balanced (by decide)
    have hline := ((hreturn.append hbraces).append hend).lineText_remark h.1.unbroken
    -- the slashes of the remark stand in one piece of text with the semicolon
    have htext : Statement.text (.returnsDefault remark) =
        "return " ++ inBraces "" ++ "; " ++ "// " ++ remark := by
      simp only [Statement.text, String.append_assoc]
      rfl
    rw [htext]
    exact hline

/-! ## Code and methods -/

def Condition.Plain (condition : Condition) : Prop :=
  ∀ operand ∈ condition.operands, operand.Plain

theorem Condition.Plain.balanced {condition : Condition} (h : condition.Plain) :
    Balanced condition.text := by
  cases condition with
  | succeeded => exact Cpp.Plain.balanced (by decide)
  | equal left right =>
    have hequal : Balanced " == " := Cpp.Plain.balanced (by decide)
    have hleft := (h left (by simp [Condition.operands])).balanced
    have hright := (h right (by simp [Condition.operands])).balanced
    exact (hleft.append hequal).append hright
  | differ left right =>
    have hdiffer : Balanced " != " := Cpp.Plain.balanced (by decide)
    have hleft := (h left (by simp [Condition.operands])).balanced
    have hright := (h right (by simp [Condition.operands])).balanced
    exact (hleft.append hdiffer).append hright

def Guard.Plain (guard : Guard) : Prop := ∀ operand ∈ guard.operands, operand.Plain

theorem Guard.Plain.lineText {guard : Guard} (h : guard.Plain) : LineText guard.text := by
  have hclose : Balanced ")" := Cpp.Plain.balanced (by decide)
  cases guard with
  | when condition =>
    have hopen : Opening "if (" := Leading.opening (by decide)
    exact ((hopen.append (Condition.Plain.balanced h)).append hclose).lineText
  | otherwiseWhen condition =>
    have hopen : Opening "else if (" := Leading.opening (by decide)
    exact ((hopen.append (Condition.Plain.balanced h)).append hclose).lineText
  | otherwise => exact (Leading.opening (by decide)).lineText

/-- Code fits where its guards and its statements are plain. -/
theorem fits_code {code : Code} (hguards : ∀ guard ∈ code.guards, guard.Plain)
    (hstatements : ∀ statement ∈ code.statements, statement.Plain) : code.layout.Fits := by
  cases code with
  | statement line => exact .line (hstatements line List.mem_cons_self).lineText
  | blank => exact .blank
  | branch guard body =>
    refine .block (hguards guard List.mem_cons_self).lineText (.stack ?_)
    intro statement hstatement
    exact .line (hstatements statement hstatement).lineText

def Parameter.Plain (parameter : Parameter) : Prop :=
  LeadingType parameter.type ∧ IsName parameter.name

theorem Parameter.Plain.isType {parameter : Parameter} (h : parameter.Plain) :
    IsType parameter.text :=
  (h.1.1.append (by decide)).append h.2.isType

theorem plain_commaSeparated {texts : List String} (h : ∀ text ∈ texts, Plain text) :
    Plain (commaSeparated texts) := by
  fun_induction commaSeparated texts with
  | case1 => decide
  | case2 text => exact h text List.mem_cons_self
  | case3 text rest _ ih =>
    obtain ⟨htext, hrest⟩ := List.forall_mem_cons.1 h
    exact (htext.append (by decide)).append (ih hrest)

/-- A method whose spellings are plain. Its result starts the line, if it has one, and its name
otherwise. -/
structure Method.Plain (method : Method) : Prop where
  opens : Starts (method.result.getD method.name)
  result : ∀ type ∈ method.result, IsType type
  name : IsName method.name
  parameters : ∀ parameter ∈ method.parameters, parameter.Plain
  guards : ∀ guard ∈ method.guards, guard.Plain
  statements : ∀ statement ∈ method.statements, statement.Plain

/-- A method can start a line with its result, or with its name where it has no result. -/
theorem Method.Plain.opening {method : Method} (h : method.Plain) :
    Opening ((match method.result with
      | some type => type ++ " "
      | none => "") ++ method.name) := by
  have hopens := h.opens
  cases hresult : method.result with
  | none =>
    rw [hresult] at hopens
    have hname : Opening method.name := ⟨h.name.plain.balanced, hopens⟩
    exact (String.empty_append (s := method.name)).symm ▸ hname
  | some type =>
    rw [hresult] at hopens
    have htype : Opening type := ⟨(h.result type hresult).plain.balanced, hopens⟩
    exact (htype.append (Cpp.Plain.balanced (by decide))).append h.name.plain.balanced

theorem Method.Plain.lineText {method : Method} (h : method.Plain) :
    LineText method.signature := by
  have hparameters : Cpp.Plain (commaSeparated (method.parameters.map Parameter.text)) := by
    apply plain_commaSeparated
    exact List.forall_mem_map.2 fun parameter hmem => (h.parameters parameter hmem).isType.plain
  have hopen : Balanced "(" := Cpp.Plain.balanced (by decide)
  have hclose : Balanced ")" := Cpp.Plain.balanced (by decide)
  have hconst : Balanced (if method.isConst then " const" else "") := by
    split
    · exact Cpp.Plain.balanced (by decide)
    · exact Cpp.Plain.balanced (by decide)
  have hcall := ((h.opening.append hopen).append hparameters.balanced).append hclose
  exact (hcall.append hconst).lineText

/-- A method of plain code fits at every depth. -/
theorem Method.Plain.fits {method : Method} (h : method.Plain) : method.layout.Fits := by
  refine .block h.lineText (.stack ?_)
  -- the pieces of the body have the guards and the statements of the method
  intro code hcode
  apply fits_code
  · exact fun guard hguard => h.guards guard (List.mem_flatMap.2 ⟨code, hcode, hguard⟩)
  · intro statement hstatement
    exact h.statements statement (List.mem_flatMap.2 ⟨code, hcode, hstatement⟩)

/-! ## Structs -/

structure Struct.Plain (struct : Struct) : Prop where
  name : IsName struct.name ∧ struct.name ≠ ""
  fields : ∀ declaration ∈ struct.fields, declaration.Plain
  methods : ∀ method ∈ struct.methods, method.Plain
  records : ∀ name fields, Member.record name fields ∈ struct.members →
    (IsName name ∧ name ≠ "") ∧ ∀ declaration ∈ fields, declaration.Plain

theorem opening_struct {name : String} (h : IsName name) : Opening ("struct " ++ name) := by
  have hstruct : Opening "struct " := Leading.opening (by decide)
  exact hstruct.append h.plain.balanced

/-- The lines of a struct of plain code fit one below the other. -/
theorem Struct.Plain.fits {struct : Struct} (h : struct.Plain) : struct.layout.Fits := by
  refine .declaration (opening_struct h.name.1).lineText (.stack ?_)
  intro member hmember
  cases member with
  | blank => exact .blank
  | field declaration => exact .line (h.fields declaration (mem_fields.2 hmember)).lineText
  | method method => exact (h.methods method (mem_methods.2 hmember)).fits
  | record name fields =>
    obtain ⟨hname, hfields⟩ := h.records name fields hmember
    refine .declaration (opening_struct hname.1).lineText (.stack ?_)
    intro declaration hdeclaration
    exact .line (hfields declaration hdeclaration).lineText

end XrManifest.Cpp
