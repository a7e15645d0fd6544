import XrManifest.Files.Path
import XrManifest.Naming.Style

/-!
# Requests

What the arguments of the command can ask for, and how they can be misused.
-/

namespace XrManifest.CommandLine

open XrManifest.Naming

/-- What a run was asked to do. -/
structure Invocation where
  manifest : String
  out : Option String
  style : Style
  toStdout : Bool
  verbose : Bool
deriving DecidableEq, Repr

/-- Where the header is to be written. -/
def Invocation.output (invocation : Invocation) : String :=
  invocation.out.getD (Files.headerPath invocation.manifest)

/-- What the arguments ask for. -/
inductive Request where
  | help
  | version
  | run (invocation : Invocation)
deriving DecidableEq, Repr

/-- The options that take a value. -/
inductive ValueOption where
  | out
  | naming
deriving DecidableEq, Repr

/-- The options that take none. -/
inductive Flag where
  | stdout
  | verbose
  | help
  | version
deriving DecidableEq, Repr

/-- How the arguments can be misused. -/
inductive UsageError where
  | unknownOption (text : String)
  | unexpectedArgument (text : String)
  | unexpectedValue (flag text : String)
  | missingValue (option : ValueOption)
  | emptyValue (name : String)
  | unknownStyle (text : String)
  | repeated (name : String)
  | missingManifest
  | conflict
deriving DecidableEq, Repr

def ValueOption.name : ValueOption → String
  | out => "--out"
  | naming => "--naming"

def Flag.name : Flag → String
  | stdout => "--stdout"
  | verbose => "--verbose"
  | help => "--help"
  | version => "--version"

def UsageError.message : UsageError → String
  | unknownOption text => "unexpected argument `" ++ text ++ "`"
  | unexpectedArgument text => "unexpected argument `" ++ text ++ "`"
  | unexpectedValue flag text => "unexpected value `" ++ text ++ "` for `" ++ flag ++ "`"
  | missingValue option => "a value is required for `" ++ option.name ++ "`"
  | emptyValue name => "a value is required for `" ++ name ++ "`"
  | unknownStyle text => "invalid naming style `" ++ text ++ "`"
  | repeated name => "`" ++ name ++ "` cannot be used more than once"
  | missingManifest => "no manifest was named"
  | conflict => "`--stdout` cannot be used with `--out`"

end XrManifest.CommandLine
