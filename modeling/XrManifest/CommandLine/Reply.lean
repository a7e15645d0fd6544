import XrManifest.CommandLine.Arguments
import XrManifest.Files.Run

/-!
# Replies

What the command answers: the text it prints, the diagnostic it leaves, its exit
code, and the files as they are afterwards.
-/

namespace XrManifest.CommandLine

open XrManifest.Files

/-- What the command answers. -/
inductive Reply where
  | help
  | version
  | misused (error : UsageError)
  | printed (header : String)
  | stored
  | failed (context : String) (error : RunError)
deriving DecidableEq, Repr

def helpText : String :=
  "Generate a C++ OpenXR header from an action manifest

Usage: actiongen [OPTIONS] <MANIFEST>

Arguments:
  <MANIFEST>         Action manifest to read (JSON, comments and trailing commas allowed)

Options:
  -o, --out <OUT>    Where to write the header (next to the manifest by default)
      --naming <N>   Identifier style in the generated code: pascal, camel or snake
      --stdout       Print the header instead of writing it
  -v, --verbose      Verbose logging
  -h, --help         Print help
  -V, --version      Print version
"

def versionText : String := "actiongen 0.1.0\n"

namespace Reply

/-- The exit code: 0, unless the command was misused or failed. -/
def exitCode : Reply → Nat
  | misused _ => 1
  | failed _ _ => 1
  | _ => 0

def output : Reply → String
  | help => helpText
  | version => versionText
  | printed header => header
  | _ => ""

/-- The line on standard error: what failed, and behind colons the causes. -/
def diagnostic? : Reply → Option String
  | misused error => some ("error: " ++ error.message)
  | failed context error => some ("error: " ++ ": ".intercalate (context :: error.chain))
  | _ => none

end Reply

namespace Invocation

/-- What a failure of the run is reported as. -/
def context (invocation : Invocation) : String :=
  if invocation.toStdout then
    "Failed to generate a header for `" ++ invocation.manifest ++ "`"
  else "Failed to generate `" ++ invocation.output ++ "`"

section
variable {m : Type → Type} [Monad m] (files : FileAccess m) (invocation : Invocation)

/-- Prints the header or writes it. -/
def attempt : ExceptT RunError m Reply :=
  if invocation.toStdout then do
    let header ← files.readHeader invocation.style invocation.manifest
    return .printed header
  else do
    files.generateFile invocation.style invocation.manifest invocation.output
    return .stored

def follow : m Reply := do
  match ← (invocation.attempt files).run with
  | .ok reply => return reply
  | .error error => return .failed invocation.context error

end

/-- Runs the command on a tree of files. -/
def run (tree : FileTree) (invocation : Invocation) : Reply × FileTree :=
  invocation.follow FileTree.access tree

end Invocation

/-- Answers the arguments of the command. -/
def respond {m : Type → Type} [Monad m] (files : FileAccess m) (arguments : List String) :
    m Reply :=
  match read arguments with
  | .error error => return .misused error
  | .ok .help => return .help
  | .ok .version => return .version
  | .ok (.run invocation) => invocation.follow files

/-- Answers the arguments of the command, given a tree of files. -/
def answer (tree : FileTree) (arguments : List String) : Reply × FileTree :=
  respond FileTree.access arguments tree

end XrManifest.CommandLine
