import XrManifest.CommandLine.Reply

/-!
# The command

Reads the arguments, follows them on the files of the system, and prints the
reply.
-/

namespace XrManifest.CommandLine

open XrManifest.Files

/-- The cause of a failure with a number, which may be given by its complement. -/
def numberedError (code : UInt32) (text : String) : FileError :=
  match min code (0 - code) with
  | 2 => .noEntry
  | 20 => .notDirectory
  | 21 => .isDirectory
  | 36 => .nameTooLong
  | number => .other number.toNat text

/-- The cause of a failure that the system reports. -/
def fileError : IO.Error → FileError
  | .noFileOrDirectory .. => .noEntry
  | .inappropriateType _ code text | .resourceExhausted _ code text
  | .invalidArgument _ code text | .permissionDenied _ code text
  | .alreadyExists _ code text | .noSuchThing _ code text
  | .otherError code text | .unsupportedOperation code text => numberedError code text
  | error => .other 0 (toString error)

def systemFiles : FileAccess IO where
  read path := ExceptT.mk do
    try
      match String.fromUTF8? (← IO.FS.readBinFile path) with
      | some text => return .ok text
      | none => return .error .notText
    catch error => return .error (fileError error)
  write path text := ExceptT.mk do
    try
      IO.FS.writeBinFile path text.toUTF8
      return .ok ()
    catch error => return .error (fileError error)

end XrManifest.CommandLine

open XrManifest.CommandLine in
/-- Answers the arguments of the command. -/
def main (arguments : List String) : IO UInt32 := do
  let reply ← respond systemFiles arguments
  IO.print reply.output
  if let some line := reply.diagnostic? then IO.eprintln line
  return reply.exitCode.toUInt32
