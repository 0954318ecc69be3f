import WorkflowLang.CommandLine

/-!
# The program

Runs the command line on the files of the machine.
-/

namespace WorkflowLang

/-- The number that the system gave an error, and its wording. -/
def systemError? : IO.Error → Option (UInt32 × String)
  | .alreadyExists _ number reason | .otherError number reason
  | .resourceBusy number reason | .resourceVanished number reason
  | .unsupportedOperation number reason | .hardwareFault number reason
  | .unsatisfiedConstraints number reason | .illegalOperation number reason
  | .protocolError number reason | .timeExpired number reason
  | .interrupted _ number reason | .noFileOrDirectory _ number reason
  | .invalidArgument _ number reason | .permissionDenied _ number reason
  | .resourceExhausted _ number reason | .inappropriateType _ number reason
  | .noSuchThing _ number reason => some (number, reason)
  | .unexpectedEof | .userError _ => none

/-- The error of a file.  An error without a number comes from text that could
not be decoded. -/
def FileError.ofSystem (error : IO.Error) : FileError :=
  match systemError? error with
  | some (2, _) => .notFound
  | some (17, _) => .alreadyExists
  | some (20, _) => .notADirectory
  | some (21, _) => .isADirectory
  | some (36, _) => .nameTooLong
  | some (number, reason) => .other (FileError.numbered reason number.toNat)
  | none => .invalidText

/-- The value of an action on a file, or its error. -/
def attempt {α : Type} (action : IO α) : IO (Except FileError α) :=
  action.toBaseIO >>= fun result =>
    match result with
    | .ok value => return .ok value
    | .error error => return .error (.ofSystem error)

/-- What a path leads to, by what came of reading it.  A file that may not be
read is a file. -/
def FileKind.ofReading : Except FileError String → Option FileKind
  | .ok _ | .error .invalidText | .error (.other _) => some .file
  | .error .isADirectory => some .directory
  | .error .notFound | .error .alreadyExists | .error .notADirectory
  | .error .nameTooLong | .error .nullInPath => none

instance : FileSystem IO where
  kind? path := FileKind.ofReading <$> attempt (IO.FS.readFile path)
  read path := attempt (IO.FS.readFile path)
  write path text := attempt (IO.FS.writeFile path text)
  makeDirectory path := attempt (IO.FS.createDir path)

def Surroundings.ofMachine : IO Surroundings := do
  let named := (← IO.getEnv "XDG_CONFIG_HOME").filter Path.isAbsolute
  let home := (← IO.getEnv "HOME").filter fun path => !path.isEmpty
  let output ← IO.getStdout
  return {
    settingsDirectory := named <|> home.map (Path.join · ".config")
    showsColors :=
      (← IO.getEnv "NO_COLOR").isNone && (← output.isTty) }

end WorkflowLang

/-- Runs the program with its arguments. -/
def main (arguments : List String) : IO UInt32 := do
  let output ← WorkflowLang.CommandLine.run
    (← WorkflowLang.Surroundings.ofMachine) arguments
  (← IO.getStdout).putStr output.standardOutput
  (← IO.getStderr).putStr output.standardError
  return output.exitCode.toUInt32
