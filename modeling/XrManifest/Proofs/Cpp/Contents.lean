import Mathlib.Data.List.DropRight
import XrManifest.Cpp.Syntax

/-!
# What C++ code contains

The fields, methods, statements, operands and calls of a tree of C++ code, and the names
that it uses as members of a variable.
-/

namespace XrManifest.Cpp

/-! ## Operands -/

/-- The names that an operand uses as members of the variable `object`. -/
def Operand.uses (object : String) : Operand → List String
  | .field (.word holder) name => if holder = object then [name] else []
  | .field inner _ => inner.uses object
  | _ => []

def Value.operands : Value → List Operand
  | .operand item => [item]
  | .call _ arguments => arguments
  | .braces items => items

def Declaration.operands : Declaration → List Operand
  | .preset _ _ value => value.operands
  | .listed _ _ elements => elements
  | _ => []

/-- The operands of a statement, its target included. -/
def Statement.operands : Statement → List Operand
  | .declare declaration => declaration.operands
  | .assign target value => target :: value.operands
  | .call _ arguments => arguments
  | .discard _ arguments => arguments
  | .returns value => value.operands
  | .returnsDefault _ => []

def Condition.operands : Condition → List Operand
  | .succeeded => []
  | .equal left right => [left, right]
  | .differ left right => [left, right]

/-- The operands in front of the body of a branch. -/
def Guard.operands : Guard → List Operand
  | .when condition => condition.operands
  | .otherwiseWhen condition => condition.operands
  | .otherwise => []

def Code.operands : Code → List Operand
  | .statement line => line.operands
  | .blank => []
  | .branch guard body => guard.operands ++ body.flatMap Statement.operands

def Method.operands (method : Method) : List Operand := method.body.flatMap Code.operands

def Member.operands : Member → List Operand
  | .blank => []
  | .field declaration => declaration.operands
  | .method m => m.operands
  | .record _ fields => fields.flatMap Declaration.operands

/-- The names that a struct uses anywhere as members of the variable `object`. -/
def Struct.uses (object : String) (struct : Struct) : List String :=
  struct.members.flatMap fun member => member.operands.flatMap (Operand.uses object)

/-! ## Statements -/

/-- The type that a declaration starts with. -/
def Declaration.type : Declaration → String
  | plain type _ => type
  | tagged type _ _ => type
  | preset type _ _ => type
  | sized type _ _ => type
  | listed type _ _ => type

def Code.statements : Code → List Statement
  | .statement line => [line]
  | .blank => []
  | .branch _ body => body

/-- The statements of a method in the order in which they are written. -/
def Method.statements (method : Method) : List Statement := method.body.flatMap Code.statements

/-- How the branches of a piece of code start. -/
def Code.guards : Code → List Guard
  | .statement _ => []
  | .blank => []
  | .branch guard _ => [guard]

/-- How the branches of a method start. -/
def Method.guards (method : Method) : List Guard := method.body.flatMap Code.guards

/-- The operands of a method are those of its guards and of its statements. -/
theorem Method.mem_operands {method : Method} {operand : Operand} :
    operand ∈ method.operands ↔ (∃ guard ∈ method.guards, operand ∈ guard.operands) ∨
      ∃ statement ∈ method.statements, operand ∈ statement.operands := by
  have hcode : ∀ code : Code, operand ∈ code.operands ↔
      (∃ guard ∈ code.guards, operand ∈ guard.operands) ∨
        ∃ statement ∈ code.statements, operand ∈ statement.operands := by
    intro code
    cases code <;> simp [Code.operands, Code.guards, Code.statements]
  simp only [Method.operands, Method.guards, Method.statements, List.mem_flatMap, hcode]
  constructor
  · rintro ⟨code, hmem, ⟨guard, hguard, h⟩ | ⟨statement, hstatement, h⟩⟩
    · exact .inl ⟨guard, ⟨code, hmem, hguard⟩, h⟩
    · exact .inr ⟨statement, ⟨code, hmem, hstatement⟩, h⟩
  · rintro (⟨guard, ⟨code, hmem, hguard⟩, h⟩ | ⟨statement, ⟨code, hmem, hstatement⟩, h⟩)
    · exact ⟨code, hmem, .inl ⟨guard, hguard, h⟩⟩
    · exact ⟨code, hmem, .inr ⟨statement, hstatement, h⟩⟩

/-- The function that a statement calls, with its arguments. -/
def Statement.call? : Statement → Option (String × List Operand)
  | .declare (.preset _ _ (.call function arguments)) => some (function, arguments)
  | .assign _ (.call function arguments) => some (function, arguments)
  | .call function arguments => some (function, arguments)
  | .discard function arguments => some (function, arguments)
  | .returns (.call function arguments) => some (function, arguments)
  | _ => none

/-! ## Calls -/

def declarationsOf (statements : List Statement) : List Declaration :=
  statements.filterMap fun
    | .declare declaration => some declaration
    | _ => none

def assignmentsOf (statements : List Statement) : List (Operand × Value) :=
  statements.filterMap fun
    | .assign target value => some (target, value)
    | _ => none

/-- What is done behind the last declaration and in front of the last statement. -/
def settingsOf (statements : List Statement) : List Statement :=
  statements.dropLast.rtakeWhile fun
    | .declare _ => false
    | _ => true

/-- What is done to make a call: what is declared, then what is assigned and what else is called,
and the last statement, which is to make the call. -/
structure CallBlock where
  guards : List Guard
  declarations : List Declaration
  assignments : List (Operand × Value)
  calls : List (String × List Operand)
  last : Option Statement

def CallBlock.ofStatements (guards : List Guard) (statements : List Statement) : CallBlock where
  guards := guards
  declarations := declarationsOf statements
  assignments := assignmentsOf (settingsOf statements)
  calls := (settingsOf statements).filterMap Statement.call?
  last := statements.getLast?

/-- What a piece of code does to make a call, if it calls one of the functions `chosen`. -/
def callBlock? (chosen : String → Bool) (code : Code) : Option CallBlock :=
  if code.statements.any fun statement => statement.call?.any fun call => chosen call.1 then
    some (.ofStatements code.guards code.statements)
  else none

/-- Pieces of code with a blank line in front of each are read one by one, where nothing is read
off the blank lines. -/
theorem filterMap_behindBlanks {α β : Type} {read : Code → Option β} (hblank : read .blank = none)
    (block : α → Code) (items : List α) :
    (items.flatMap fun item => [.blank, block item]).filterMap read =
      items.filterMap fun item => read (block item) := by
  induction items with
  | nil => rfl
  | cons item items ih =>
    rw [List.flatMap_cons, List.filterMap_append, ih, List.filterMap_cons_none hblank]
    cases hread : read (block item) <;> simp [hread]

/-! ## Structs -/

def Struct.fields (struct : Struct) : List Declaration :=
  struct.members.filterMap fun
    | .field declaration => some declaration
    | _ => none

def Struct.methods (struct : Struct) : List Method :=
  struct.members.filterMap fun
    | .method method => some method
    | _ => none

/-- The method of a struct with this name, the first if there are several. -/
def Struct.method? (struct : Struct) (name : String) : Option Method :=
  struct.methods.find? fun method => method.name = name

theorem Struct.mem_fields {struct : Struct} {declaration : Declaration} :
    declaration ∈ struct.fields ↔ .field declaration ∈ struct.members := by
  rw [Struct.fields, List.mem_filterMap]
  constructor
  · rintro ⟨member, hmember, hfield⟩
    cases member with
    | field found => exact Option.some.inj hfield ▸ hmember
    | _ => cases hfield
  · intro h
    exact ⟨_, h, rfl⟩

theorem Struct.mem_methods {struct : Struct} {method : Method} :
    method ∈ struct.methods ↔ .method method ∈ struct.members := by
  rw [Struct.methods, List.mem_filterMap]
  constructor
  · rintro ⟨member, hmember, hmethod⟩
    cases member with
    | method found => exact Option.some.inj hmethod ▸ hmember
    | _ => cases hmethod
  · intro h
    exact ⟨_, h, rfl⟩

/-- The method of a name is found behind methods with other names. -/
theorem Struct.method?_eq_some {struct : Struct} {before after : List Method} {method : Method}
    (hmethods : struct.methods = before ++ method :: after)
    (hbefore : ∀ other ∈ before, other.name ≠ method.name) :
    struct.method? method.name = some method := by
  have hnone : before.find? (fun other => other.name = method.name) = none := by
    rw [List.find?_eq_none]
    intro other hother
    simpa using hbefore other hother
  rw [Struct.method?, hmethods, List.find?_append, hnone, Option.none_or,
    List.find?_cons_of_pos (by simp)]

end XrManifest.Cpp
