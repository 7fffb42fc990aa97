/-!
# The command line

Options come first.  The first word that is no option starts the tokens of the pipeline, and from
there on every word is a token; a `--` before the tokens is dropped.  Words with a dash that are no
options are tokens too, and so they are values: the path of the settings may stand behind its option
as any word that could be a token.

A value in a word of its own is taken in when the next word has been looked at.  A switch with a
value that it does not take is refused before that.
-/

namespace Pipeline

/-- The options and tokens of a command line. -/
structure CommandLine where
  config : Option String := none
  ignoreError : Bool := false
  printError : Bool := false
  version : Bool := false
  tokens : List String := []
  deriving DecidableEq, Repr

namespace CommandLine

/-- Why a command line is not carried out. -/
inductive Refusal where
  | help
  | conflict
  | invalidValue
  | tooManyValues
  deriving DecidableEq, Repr

/-- What a word asks for. -/
inductive Word where
  | config (value : Option String)
  | ignoreError
  | printError
  | version
  | help
  | unneededValue
  | cluster (letters : List Char)
  | separator
  | token
  deriving DecidableEq, Repr

/-- A word for an option that takes no value. -/
def Word.plain (word : Word) (value : Option String) : Word :=
  if value.isSome then .unneededValue else word

/-- A long option and the value behind its equals sign. -/
def longWord (body : List Char) : Word :=
  let name := String.ofList (body.takeWhile (· ≠ '='))
  let value := match body.dropWhile (· ≠ '=') with
    | _ :: cs => some (String.ofList cs)
    | [] => none
  match name with
  | "config" => .config value
  | "ignoreerror" => Word.ignoreError.plain value
  | "printerror" => Word.printError.plain value
  | "version" => Word.version.plain value
  | "help" => Word.help.plain value
  | _ => .token

/-- What a word asks for: one dash before letters that are all flags makes a cluster of flags. -/
def Word.ofString (s : String) : Word :=
  match s.toList with
  | ['-', '-'] => .separator
  | '-' :: '-' :: body => longWord body
  | '-' :: letters =>
    if !letters.isEmpty && letters.all (fun c => c = 'v' || c = 'h') then .cluster letters
    else .token
  | _ => .token

/-- Sets a switch, which may be given once. -/
def setSwitch (isSet : Bool) (next : CommandLine) : Except Refusal CommandLine :=
  if isSet then .error .conflict else .ok next

/-- Sets the file of settings, which may be given once and is not empty. -/
def setConfig (c : CommandLine) (value : String) : Except Refusal CommandLine :=
  if c.config.isSome then .error .conflict
  else if value.isEmpty then .error .invalidValue
  else .ok { c with config := some value }

/-- Takes in a file of settings that waits. -/
def settle (c : CommandLine) : Option String → Except Refusal CommandLine
  | some value => c.setConfig value
  | none => .ok c

/-- Reads the flags of a cluster in order. -/
def readCluster (c : CommandLine) : List Char → Except Refusal CommandLine
  | [] => .ok c
  | 'h' :: _ => .error .help
  | _ :: letters => do readCluster (← setSwitch c.version { c with version := true }) letters

/-- Reads the words behind the options read so far, the last of which may have left a file of
settings waiting.  It stands for clap, the argument parser of the program, when it is told of these
options, that the tokens are all words from the first of them on (`trailing_var_arg`), and that
words with a dash which are no options are taken as tokens (`allow_hyphen_values`). -/
def readWords (c : CommandLine) (waiting : Option String) :
    List String → Except Refusal CommandLine
  | [] => c.settle waiting
  | word :: rest =>
    match Word.ofString word with
    | .unneededValue => .error .tooManyValues
    | .token => do return { ← c.settle waiting with tokens := word :: rest }
    | .separator => do return { ← c.settle waiting with tokens := rest }
    | .help => do
      let _ ← c.settle waiting
      .error .help
    | .cluster letters => do readWords (← (← c.settle waiting).readCluster letters) none rest
    | .ignoreError => do
      let c ← c.settle waiting
      readWords (← setSwitch c.ignoreError { c with ignoreError := true }) none rest
    | .printError => do
      let c ← c.settle waiting
      readWords (← setSwitch c.printError { c with printError := true }) none rest
    | .version => do
      let c ← c.settle waiting
      readWords (← setSwitch c.version { c with version := true }) none rest
    | .config (some value) => do readWords (← (← c.settle waiting).setConfig value) none rest
    | .config none => do
      let c ← c.settle waiting
      match rest with
      | [] => .error .invalidValue
      | value :: rest =>
        match Word.ofString value with
        | .token => readWords c (some value) rest
        | .unneededValue => .error .tooManyValues
        | _ => .error .invalidValue

/-- The options and tokens that words stand for. -/
def read (words : List String) : Except Refusal CommandLine := readWords {} none words

end CommandLine

end Pipeline
