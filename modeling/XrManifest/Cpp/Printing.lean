import XrManifest.Cpp.Layout
import XrManifest.Cpp.Literal
import XrManifest.Cpp.Syntax

/-!
# The text of C++ code

Every statement and every declaration takes one line; branches, methods and
structs are blocks.
-/

namespace XrManifest.Cpp

/-- Texts separated by commas. -/
def commaSeparated : List String → String
  | [] => ""
  | [text] => text
  | text :: rest => text ++ ", " ++ commaSeparated rest

/-- A text in braces. -/
def inBraces (text : String) : String := "\x7b" ++ text ++ "\x7d"

def Operand.text : Operand → String
  | word spelling => spelling
  | literal text => stringLiteral text
  | address name => "&" ++ name
  | field object name => object.text ++ "." ++ name
  | entry table index => table ++ "[" ++ toString index ++ "]"

def callText (function : String) (arguments : List Operand) : String :=
  function ++ "(" ++ commaSeparated (arguments.map Operand.text) ++ ")"

def Value.text : Value → String
  | operand o => o.text
  | call function arguments => callText function arguments
  | braces items => inBraces (commaSeparated (items.map Operand.text))

def Declaration.text : Declaration → String
  | plain type name => type ++ " " ++ name ++ ";"
  | tagged type name tag => type ++ " " ++ name ++ inBraces tag ++ ";"
  | preset type name value => type ++ " " ++ name ++ " = " ++ value.text ++ ";"
  | sized type name length => type ++ " " ++ name ++ "[" ++ toString length ++ "];"
  | listed type name elements =>
    "const " ++ type ++ " " ++ name ++ "[] = " ++
      inBraces (" " ++ commaSeparated (elements.map Operand.text) ++ " ") ++ ";"

def Statement.text : Statement → String
  | declare declaration => declaration.text
  | assign target value => target.text ++ " = " ++ value.text ++ ";"
  | call function arguments => callText function arguments ++ ";"
  | discard function arguments => "(void)" ++ callText function arguments ++ ";"
  | returns value => "return " ++ value.text ++ ";"
  | returnsDefault remark => "return " ++ inBraces "" ++ "; // " ++ remark

def Condition.text : Condition → String
  | succeeded => "XR_SUCCEEDED(result)"
  | equal left right => left.text ++ " == " ++ right.text
  | differ left right => left.text ++ " != " ++ right.text

def Guard.text : Guard → String
  | when condition => "if (" ++ condition.text ++ ")"
  | otherwiseWhen condition => "else if (" ++ condition.text ++ ")"
  | otherwise => "else"

def Code.layout : Code → Layout
  | statement s => .line s.text
  | blank => .blank
  | branch guard body => .block guard.text (.stack (body.map fun s => .line s.text))

def Parameter.text (parameter : Parameter) : String := parameter.type ++ " " ++ parameter.name

/-- The text of a method up to its body. -/
def Method.signature (method : Method) : String :=
  (match method.result with
    | some type => type ++ " "
    | none => "") ++
  method.name ++ "(" ++ commaSeparated (method.parameters.map Parameter.text) ++ ")" ++
  (if method.isConst then " const" else "")

def Method.layout (method : Method) : Layout :=
  .block method.signature (.stack (method.body.map Code.layout))

def Member.layout : Member → Layout
  | blank => .blank
  | field declaration => .line declaration.text
  | method m => m.layout
  | record name fields =>
    .declaration ("struct " ++ name) (.stack (fields.map fun field => .line field.text))

def Struct.layout (struct : Struct) : Layout :=
  .declaration ("struct " ++ struct.name) (.stack (struct.members.map Member.layout))

end XrManifest.Cpp
