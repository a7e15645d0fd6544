import XrManifest.Cpp.Syntax

/-!
# Calls of OpenXR in a header

A generated method keeps the outcome of its last call in `result`, makes a call
only while every earlier one succeeded, and returns `result` in the end.
-/

namespace XrManifest.Header

open XrManifest.Cpp

/-- Statements that run only while every call so far succeeded. -/
def ifSucceeded (body : List Statement) : Code := .branch (.when .succeeded) body

/-- A call whose outcome is kept. -/
def keepResult (function : String) (arguments : List Operand) : Statement :=
  .assign (.word "result") (.call function arguments)

/-- The start of a method that has made no call yet. -/
def startResult : Statement :=
  .declare (.preset "XrResult" "result" (.operand (.word "XR_SUCCESS")))

/-- The end of a method. -/
def returnResult : Statement := .returns (.operand (.word "result"))

/-- Finds the path with the text `path` and stores it in the variable `target`. -/
def resolvePath (path target : String) : Statement :=
  keepResult "xrStringToPath" [.word "instance", .literal path, .address target]

def memberOf (object member : String) : Operand := .field (.word object) member

def copyText (object member text : String) : Statement :=
  .call "strcpy_s" [memberOf object member, .literal text]

def setMember (object member : String) (value : Operand) : Statement :=
  .assign (memberOf object member) (.operand value)

/-- The parameter through which a method reaches OpenXR. -/
def instanceParameter : Parameter := ⟨"XrInstance", "instance"⟩

/-- The parameter through which a method reads states. -/
def sessionParameter : Parameter := ⟨"XrSession", "session"⟩

/-- The parameter that gives a method the handles of the struct `owner`. -/
def handlesParameter (owner : String) : Parameter := ⟨owner ++ " const&", "actionSet"⟩

/-- A handle that a method reaches through its parameter. -/
def handle (name : String) : Operand := memberOf "actionSet" name

end XrManifest.Header
