import Pipeline.CommandLine
import Pipeline.Modules
import Pipeline.Printer
import Pipeline.Shell.Runner

/-!
# The program

Everything between the words of a command line and what is printed.  The outside world is a value:
the words, the piped input, the files and one variable of the environment.
-/

namespace Pipeline

/-- What the program is started with. -/
structure Start where
  words : List String
  input : String
  files : Files
  configVariable : Option String

/-- The text that the program prints, and its exit code. -/
structure Finish where
  code : Nat
  output : String
  deriving DecidableEq, Repr

namespace Program

/-- The version of the program. -/
def version : String := "0.4.0"

/-- The help text. -/
def helpText : String :=
  String.join <| List.map (· ++ "\n")
    [ "basho - shell pipelines with expressions between the pipes",
      "",
      "Usage: basho [OPTIONS] [TOKENS]...",
      "",
      "Arguments:",
      "  [TOKENS]...  Pipeline tokens",
      "",
      "Options:",
      "      --config <CONFIG>  Path to a TOML config file (defaults to $BASHO_CONFIG)",
      "      --ignoreerror      Skip error items silently and keep going",
      "      --printerror       Print error items and keep going",
      "  -v, --version          Print the version and exit",
      "  -h, --help             Print help" ]

/-- The path of the settings: the one of the command line, else one of the environment that is not
empty. -/
def configPath (configVariable : Option String) (line : CommandLine) : Option String :=
  match line.config with
  | some path => some path
  | none => configVariable.filter (!·.isEmpty)

/-- The settings in the file under a path; `none` if it cannot be read.  A path that leads nowhere
stands for the settings that hold without a file. -/
def settingsAt? (files : Files) (path : String) : Option Settings :=
  if files.pathExists path then do
    let bytes ← files.bytes? path
    let text ← Text.decode? bytes
    Settings.ofText? (String.ofList text)
  else some {}

/-- The settings that the program runs with. -/
def settings? (start : Start) (line : CommandLine) : Option Settings :=
  match configPath start.configVariable line with
  | some path => settingsAt? start.files path
  | none => some {}

/-- Commands through the shell of the settings, and modules from the working directory. -/
def services (files : Files) (settings : Settings) : Services where
  command := Services.commandsBy (Shell.runCommand files settings.shell settings.shellArgs)
  load := Services.modulesBy fun reference =>
    let loader : ModuleLoader := ⟨Files.absolute files.workingDirectory, settings.maxModuleSize⟩
    (loader.load files reference).mapError ModuleError.message

/-- What to do with failed items: the command line and the settings both count. -/
def policy (line : CommandLine) (settings : Settings) : ErrorPolicy :=
  .ofFlags (line.printError || settings.printErrors) (line.ignoreError || settings.ignoreErrors)

/-- Runs a pipeline of tokens. -/
def runTokens (files : Files) (settings : Settings) (policy : ErrorPolicy) (tokens : List String) :
    Finish :=
  match Printer.run (services files settings) policy tokens with
  | .ok printed => ⟨printed.code, printed.text⟩
  | .error _ => ⟨1, ""⟩

/-- Carries out a command line. -/
def execute (start : Start) (line : CommandLine) : Finish :=
  if line.version then ⟨0, version ++ "\n"⟩
  else
    match settings? start line with
    | none => ⟨1, ""⟩
    | some settings =>
      match assembleTokens (some start.input) line.tokens with
      | [] => ⟨0, helpText⟩
      | tokens => runTokens start.files settings (policy line settings) tokens

/-- Runs the program. -/
def run (start : Start) : Finish :=
  match CommandLine.read start.words with
  | .ok line => execute start line
  | .error .help => ⟨0, helpText⟩
  | .error _ => ⟨2, ""⟩

/-- The paths of the files that a run may read: the settings, and the modules of import stages. -/
def pathsRead (words : List String) (input : String) (configVariable : Option String) :
    List String :=
  match CommandLine.read words with
  | .ok line =>
    let stages := (Stage.parseAll (assembleTokens (some input) line.tokens)).1
    (configPath configVariable line).toList ++ stages.filterMap fun
      | (.importModule reference _, _) => some reference
      | _ => none
  | .error _ => []

end Program

end Pipeline
