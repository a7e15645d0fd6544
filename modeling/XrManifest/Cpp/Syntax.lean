/-!
# The C++ of a header

As much of C++ as the headers use: structs with fields, methods and one level of
nested structs; methods with statements and one level of branches. Names,
literals and calls are kept apart, so that what a piece of code refers to can be
read off its tree.
-/

namespace XrManifest.Cpp

/-- What can stand for a value without a call. A `word` stands by itself: the name
of a variable or of a constant, or a number. -/
inductive Operand where
  | word (spelling : String)
  | literal (text : String)
  | address (name : String)
  | field (object : Operand) (name : String)
  | entry (table : String) (index : Nat)
deriving DecidableEq, Repr

/-- The right-hand side of an assignment, an initialisation or a return. -/
inductive Value where
  | operand (operand : Operand)
  | call (function : String) (arguments : List Operand)
  | braces (items : List Operand)
deriving DecidableEq, Repr

/-- The declaration of a variable or a field: on its own, with a constant in
braces, with a value, as an array of a given length, or as a constant array of
listed elements. -/
inductive Declaration where
  | plain (type name : String)
  | tagged (type name tag : String)
  | preset (type name : String) (value : Value)
  | sized (type name : String) (length : Nat)
  | listed (type name : String) (elements : List Operand)
deriving DecidableEq, Repr

def Declaration.name : Declaration → String
  | plain _ name => name
  | tagged _ name _ => name
  | preset _ name _ => name
  | sized _ name _ => name
  | listed _ name _ => name

/-- A statement that holds no other. -/
inductive Statement where
  | declare (declaration : Declaration)
  | assign (target : Operand) (value : Value)
  | call (function : String) (arguments : List Operand)
  | discard (function : String) (arguments : List Operand)
  | returns (value : Value)
  | returnsDefault (remark : String)
deriving DecidableEq, Repr

/-- What a branch depends on: the success of every call so far, or a comparison. -/
inductive Condition where
  | succeeded
  | equal (left right : Operand)
  | differ (left right : Operand)
deriving DecidableEq, Repr

/-- How a branch starts. -/
inductive Guard where
  | when (condition : Condition)
  | otherwiseWhen (condition : Condition)
  | otherwise
deriving DecidableEq, Repr

/-- A piece of the body of a method. -/
inductive Code where
  | statement (statement : Statement)
  | blank
  | branch (guard : Guard) (body : List Statement)
deriving DecidableEq, Repr

structure Parameter where
  type : String
  name : String
deriving DecidableEq, Repr

/-- A method. A destructor has no result. -/
structure Method where
  result : Option String
  name : String
  parameters : List Parameter
  isConst : Bool
  body : List Code
deriving DecidableEq, Repr

/-- What can stand in a struct. -/
inductive Member where
  | blank
  | field (declaration : Declaration)
  | method (method : Method)
  | record (name : String) (fields : List Declaration)
deriving DecidableEq, Repr

structure Struct where
  name : String
  members : List Member
deriving DecidableEq, Repr

end XrManifest.Cpp
