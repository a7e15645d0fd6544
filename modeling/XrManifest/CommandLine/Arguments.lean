import XrManifest.CommandLine.Request

/-!
# Arguments

The arguments are read from left to right. An argument that starts with a hyphen
is an option, unless it is a lone hyphen or stands behind `--`; any other is the
manifest. A request for help or for the version is answered as soon as it is
reached, and so is the first misuse.
-/

namespace XrManifest.CommandLine

open XrManifest.Naming

/-! ## What has been read -/

/-- The arguments read so far. -/
structure Draft where
  manifest : Option String
  out : Option String
  style : Option Style
  toStdout : Bool
  verbose : Bool

namespace Draft

def empty : Draft := ⟨none, none, none, false, false⟩

/-- Takes an argument that is no option. -/
def setManifest (draft : Draft) (text : String) : Except UsageError Draft :=
  if draft.manifest.isSome then .error (.unexpectedArgument text)
  else if text = "" then .error (.emptyValue "manifest")
  else .ok { draft with manifest := some text }

/-- Takes the value of an option. -/
def setValue (draft : Draft) (option : ValueOption) (text : String) : Except UsageError Draft :=
  match option with
  | .out =>
    if draft.out.isSome then .error (.repeated option.name)
    else if text = "" then .error (.emptyValue option.name)
    else .ok { draft with out := some text }
  | .naming =>
    if draft.style.isSome then .error (.repeated option.name)
    else match Style.ofName? text with
      | some style => .ok { draft with style := some style }
      | none => .error (.unknownStyle text)

/-- What the arguments ask for, once all of them are read. -/
def finish (draft : Draft) : Except UsageError Request :=
  match draft.manifest with
  | none => .error .missingManifest
  | some manifest =>
    if draft.toStdout ∧ draft.out.isSome then .error .conflict
    else .ok (.run {
      manifest
      out := draft.out
      style := draft.style.getD .standard
      toStdout := draft.toStdout
      verbose := draft.verbose })

end Draft

/-! ## Reading arguments -/

/-- What one argument leads to: to the next, to the value of an option, or to an
answer. -/
inductive Progress where
  | next (draft : Draft)
  | value (draft : Draft) (option : ValueOption)
  | answer (request : Request)

/-- Takes a flag. -/
def Draft.setFlag (draft : Draft) : Flag → Except UsageError Progress
  | .stdout =>
    if draft.toStdout then .error (.repeated Flag.stdout.name)
    else .ok (.next { draft with toStdout := true })
  | .verbose =>
    if draft.verbose then .error (.repeated Flag.verbose.name)
    else .ok (.next { draft with verbose := true })
  | .help => .ok (.answer .help)
  | .version => .ok (.answer .version)

/-- Reads an option that starts with two hyphens: its name, and behind the first
equals sign its value. -/
def readLong (draft : Draft) (name : List Char) (value : Option String) :
    Except UsageError Progress :=
  let text := String.ofList ('-' :: '-' :: name)
  match [ValueOption.out, .naming].find? (·.name = text) with
  | some option =>
    match value with
    | some value => (draft.setValue option value).map .next
    | none => .ok (.value draft option)
  | none =>
    match [Flag.stdout, .verbose, .help, .version].find? (·.name = text) with
    | some flag =>
      match value with
      | some value => .error (.unexpectedValue flag.name value)
      | none => draft.setFlag flag
    | none => .error (.unknownOption text)

/-- The flag of a letter. -/
def shortFlag? : Char → Option Flag
  | 'v' => some .verbose
  | 'h' => some .help
  | 'V' => some .version
  | _ => none

/-- Reads options of one letter, which may stand together behind one hyphen. What
follows the letter of an option with a value is the value. -/
def readShort (draft : Draft) : List Char → Except UsageError Progress
  | [] => .ok (.next draft)
  | ['o'] => .ok (.value draft .out)
  | 'o' :: '=' :: value => (draft.setValue .out (String.ofList value)).map .next
  | 'o' :: value => (draft.setValue .out (String.ofList value)).map .next
  | letter :: rest =>
    match shortFlag? letter with
    | none => .error (.unknownOption (String.ofList ['-', letter]))
    | some flag => do
      match ← draft.setFlag flag with
      | .next draft => readShort draft rest
      | progress => return progress

/-- Whether an argument is an option, or the mark behind which there are none. -/
def isOption : List Char → Bool
  | '-' :: _ :: _ => true
  | _ => false

def readArgument (draft : Draft) (argument : String) : Except UsageError Progress :=
  match argument.toList with
  | '-' :: '-' :: long =>
    let value := match long.dropWhile (· ≠ '=') with
      | _ :: value => some (String.ofList value)
      | [] => none
    readLong draft (long.takeWhile (· ≠ '=')) value
  | '-' :: letter :: letters => readShort draft (letter :: letters)
  | _ => (draft.setManifest argument).map .next

def readFrom (draft : Draft) : List String → Except UsageError Request
  | [] => draft.finish
  | argument :: rest =>
    if argument = "--" then do
      (← rest.foldlM Draft.setManifest draft).finish
    else do
      match ← readArgument draft argument with
      | .next draft => readFrom draft rest
      | .answer request => return request
      | .value draft option =>
        match rest with
        | [] => throw (.missingValue option)
        | value :: rest =>
          if isOption value.toList then throw (.missingValue option)
          else readFrom (← draft.setValue option value) rest

/-- What the arguments of a command ask for. -/
def read (arguments : List String) : Except UsageError Request := readFrom Draft.empty arguments

end XrManifest.CommandLine
