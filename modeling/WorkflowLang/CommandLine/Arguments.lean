import WorkflowLang.Settings
import WorkflowLang.Text.Numeral

/-!
# Arguments of the command line

Arguments are read one after the other.  An argument is a switch, the value of
the switch before it, the word of a command or a file.  Some switches may stand
both in front of the command and behind it; of two values the one behind the
command counts.
-/

namespace WorkflowLang

inductive Switch where
  | verbose
  | withoutColor
  | settingsFile
  | help
  | version
  | warningsAsErrors
  | context
  | checkOnly
  | create
  | forAll
  deriving DecidableEq, Inhabited, Repr

namespace Switch

/-- The word of a switch, which stands behind two dashes. -/
def word : Switch → String
  | .verbose => "verbose"
  | .withoutColor => "no-color"
  | .settingsFile => "config"
  | .help => "help"
  | .version => "version"
  | .warningsAsErrors => "warnings-as-errors"
  | .context => "context"
  | .checkOnly => "check"
  | .create => "init"
  | .forAll => "global"

/-- The letter of a switch, which stands behind one dash. -/
def letter? : Switch → Option Char
  | .verbose => some 'v'
  | .help => some 'h'
  | .version => some 'V'
  | .forAll => some 'g'
  | _ => none

def takesValue : Switch → Bool
  | .settingsFile | .context => true
  | _ => false

def accepts (switch : Switch) (value : String) : Bool :=
  match switch with
  | .settingsFile => !value.isEmpty
  | .context => (Text.numeral? UInt64.size value).isSome
  | _ => value.isEmpty

/-- The switches that every command knows. -/
def shared : List Switch := [.verbose, .withoutColor, .settingsFile, .help]

end Switch

inductive Subcommand where
  | check
  | format
  | settings
  | help
  deriving DecidableEq, Inhabited, Repr

namespace Subcommand

def word : Subcommand → String
  | .check => "check"
  | .format => "fmt"
  | .settings => "config"
  | .help => "help"

def all : List Subcommand := [.check, .format, .settings, .help]

def ofWord? (word : String) : Option Subcommand :=
  all.find? fun subcommand => subcommand.word == word

def switches : Subcommand → List Switch
  | .check => .warningsAsErrors :: .context :: Switch.shared
  | .format => .checkOnly :: Switch.shared
  | .settings => .create :: .forAll :: Switch.shared
  | .help => []

def takesFiles : Subcommand → Bool
  | .check | .format => true
  | .settings | .help => false

end Subcommand

/-- Why arguments do not lead to a command that runs. -/
inductive ArgumentStop where
  | misuse
  | helpWanted
  | versionWanted
  deriving DecidableEq, Inhabited, Repr

/-- The switches that were given, with their values.  The value of a switch that
takes none is empty. -/
abbrev GivenSwitches := List (Switch × String)

/-- What is known after some of the arguments. -/
structure ArgumentState where
  subcommand : Option Subcommand := none
  /-- The switches in front of the command. -/
  outer : GivenSwitches := []
  /-- The switches behind the command, if there is one already. -/
  given : GivenSwitches := []
  /-- The switch whose value comes next. -/
  pending : Option Switch := none
  /-- Whether two dashes have ended the switches. -/
  isPlain : Bool := false
  files : List String := []
  deriving DecidableEq, Inhabited, Repr

namespace ArgumentState

/-- The switches that may come next. -/
def switches (state : ArgumentState) : List Switch :=
  match state.subcommand with
  | none => .version :: Switch.shared
  | some subcommand => subcommand.switches

/-- Takes a switch with its value.  No switch may be given twice in front of
the command, and none twice behind it. -/
def give (state : ArgumentState) (switch : Switch) (value : String) :
    Except ArgumentStop ArgumentState :=
  match switch with
  | .help => .error .helpWanted
  | .version => .error .versionWanted
  | _ =>
      if (state.given.lookup switch).isSome || !switch.accepts value then
        .error .misuse
      else
        .ok { state with
          given := state.given ++ [(switch, value)], pending := none }

/-- Takes the text behind two dashes: the word of a switch, and its value
behind an equals sign. -/
def takeWord (state : ArgumentState) (text : List Char) :
    Except ArgumentStop ArgumentState :=
  let word := String.ofList (text.takeWhile (· != '='))
  let attached := text.dropWhile (· != '=')
  match state.switches.find? fun switch => switch.word == word with
  | none => .error .misuse
  | some switch =>
      match attached with
      | [] =>
          if switch.takesValue then
            .ok { state with pending := some switch }
          else state.give switch ""
      | _ :: value =>
          if switch.takesValue then state.give switch (String.ofList value)
          else .error .misuse

def takeLetter (state : ArgumentState) (letter : Char) :
    Except ArgumentStop ArgumentState :=
  match state.switches.find? fun switch => switch.letter? == some letter with
  | none => .error .misuse
  | some switch => state.give switch ""

def takeFile (state : ArgumentState) (path : String) :
    Except ArgumentStop ArgumentState :=
  if path.isEmpty then .error .misuse
  else .ok { state with files := state.files ++ [path] }

/-- Takes an argument that is no switch: the word of the command, and behind it
the path of a file. -/
def takePlain (state : ArgumentState) (argument : String) :
    Except ArgumentStop ArgumentState :=
  match state.subcommand with
  | some subcommand =>
      if subcommand.takesFiles then state.takeFile argument
      else .error .misuse
  | none =>
      match Subcommand.ofWord? argument with
      | some subcommand =>
          if state.isPlain then .error .misuse
          else
            .ok { state with
              subcommand := some subcommand
              outer := state.given
              given := [] }
      | none => .error .misuse

/-- Whether an argument looks like a switch.  A single dash does not. -/
def isSwitchLike (argument : String) : Bool :=
  match argument.toList with
  | '-' :: _ :: _ => true
  | _ => false

def step (state : ArgumentState) (argument : String) :
    Except ArgumentStop ArgumentState :=
  if state.subcommand = some .help then
    .ok { state with files := state.files ++ [argument] }
  else if state.isPlain then state.takePlain argument
  else
    match state.pending with
    | some switch =>
        if isSwitchLike argument then .error .misuse
        else state.give switch argument
    | none =>
        match argument.toList with
        | ['-', '-'] => .ok { state with isPlain := true }
        | '-' :: '-' :: text => state.takeWord text
        | '-' :: letter :: letters =>
            (letter :: letters).foldlM takeLetter state
        | _ => state.takePlain argument

end ArgumentState

inductive Command where
  | check (files : List String)
  | format (files : List String) (isDry : Bool)
  | createSettings (isGlobal : Bool)
  | showSettings (isGlobal : Bool)
  deriving DecidableEq, Inhabited, Repr

/-- The meaning of the arguments. -/
structure Invocation where
  command : Command
  settingsFile : Option String
  overrides : Overrides
  deriving DecidableEq, Inhabited, Repr

namespace ArgumentState

/-- The value of a switch, the one behind the command first. -/
def value? (state : ArgumentState) (switch : Switch) : Option String :=
  state.given.lookup switch <|> state.outer.lookup switch

def isGiven (state : ArgumentState) (switch : Switch) : Bool :=
  (state.value? switch).isSome

/-- The command, if there is one and nothing that it needs is missing.  Help may
be wanted on any one command. -/
def command (state : ArgumentState) : Except ArgumentStop Command :=
  match state.subcommand with
  | none => .error .misuse
  | some .help =>
      match state.files with
      | [] => .error .helpWanted
      | [word] =>
          if (Subcommand.ofWord? word).isSome then .error .helpWanted
          else .error .misuse
      | _ => .error .misuse
  | some .check =>
      if state.files.isEmpty then .error .misuse
      else .ok (.check state.files)
  | some .format =>
      if state.files.isEmpty then .error .misuse
      else .ok (.format state.files (state.isGiven .checkOnly))
  | some .settings =>
      .ok (if state.isGiven .create then
        .createSettings (state.isGiven .forAll)
      else .showSettings (state.isGiven .forAll))

def finish (state : ArgumentState) : Except ArgumentStop Invocation := do
  if state.pending.isSome then .error .misuse
  else
    let command ← state.command
    .ok
      { command := command
        settingsFile := state.value? .settingsFile
        overrides :=
          { withoutColor := state.isGiven .withoutColor
            warningsAsErrors := state.isGiven .warningsAsErrors
            contextLines :=
              (state.value? .context).bind (Text.numeral? UInt64.size) } }

end ArgumentState

def Invocation.ofArguments (arguments : List String) :
    Except ArgumentStop Invocation := do
  (← arguments.foldlM ArgumentState.step {}).finish

end WorkflowLang
