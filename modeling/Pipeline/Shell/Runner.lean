import Pipeline.Shell.Run
import Pipeline.Text.Blank
import Pipeline.Settings.Basic

/-!
# Shell — commands of a pipeline

A command is handed to the shell of the settings, behind the arguments of the settings, with an
empty input.  If it succeeds, its lines that hold something are the result; if not, the cause names
its status and what it wrote to its error output.
-/

namespace Pipeline.Shell

/-- How a program ended; one that a signal ended has no status. -/
structure Ended where
  status : Option Nat
  out : List UInt8
  err : List UInt8

/-- Why a program could not be started. -/
inductive SpawnError where
  | notFound
  | notDirectory
  | denied
  | nulByte

/-- The text of a spawn error. -/
def SpawnError.message : SpawnError → String
  | .notFound => "No such file or directory (os error 2)"
  | .notDirectory => "Not a directory (os error 20)"
  | .denied => "Permission denied (os error 13)"
  | .nulByte => "nul byte found in provided data"

/-- How a machine ended. -/
def Ended.ofMachine (m : Machine) : Ended :=
  ⟨if m.flow = .killed then none else some m.status, m.out, m.err⟩

/-- Why a program that is not known cannot be started. -/
def spawnError (files : Files) (program : String) : SpawnError :=
  if !program.toList.contains '/' then .notFound
  else
    match files.resolve program with
    | .ok _ => .denied
    | .error .notDirectory => .notDirectory
    | .error _ => .notFound

/-- Runs a program with arguments and an empty input. -/
def spawn (files : Files) (program : String) (args : List String) : Except SpawnError Ended :=
  if (program :: args).any fun s => s.toList.contains (Char.ofNat 0) then .error .nulByte
  else
    match runProgram depthLimit { files } program (args.map String.toList) { name := program } with
    | some m => .ok (.ofMachine m)
    | none => .error (spawnError files program)

/-- The text of a program that did not succeed. -/
def Ended.failureText (e : Ended) : String :=
  let code := "exit code " ++ (e.status.map toString).getD "-1"
  let complaint := Text.trimBlanks (Text.decodeLossy e.err)
  if complaint.isEmpty then code else code ++ ": " ++ String.ofList complaint

/-- The lines that a program gives, or the cause of its failure. -/
def Ended.lines (e : Ended) : Except String (List String) :=
  if e.status = some 0 then .ok (Text.filledLines (String.ofList (Text.decodeLossy e.out)))
  else .error e.failureText

/-- Runs a command of a pipeline. -/
def runCommand (files : Files) (shell : String) (args : List String) (command : String) :
    Except String (List String) :=
  match spawn files shell (args ++ [command]) with
  | .ok ended => ended.lines
  | .error e => .error ("failed to spawn " ++ shell ++ ": " ++ e.message)

end Pipeline.Shell
