import Pipeline.Program

/-!
# The command

Reads the arguments, the piped input, the environment and the files that the program asks for, and
hands them over as one value.
-/

namespace Pipeline.Command

/-- Everything left in a stream. -/
partial def readAll (stream : IO.FS.Stream) (read : String) : IO String := do
  let line ← stream.getLine
  if line.isEmpty then return read else readAll stream (read ++ line)

/-- The piped input; a terminal gives none. -/
def readInput : IO String := do
  let stdin ← IO.getStdin
  if ← stdin.isTty then return "" else readAll stdin ""

/-- The node under a path, if there is one that can be read. -/
def readNode? (path : String) : IO (Option FileNode) := do
  try
    if ← (← IO.FS.realPath path).isDir then return some (.directory [])
    else return some (.file (← IO.FS.readBinFile path).toList)
  catch _ => return none

/-- The files under paths. -/
def readFiles (paths : List String) : IO Files := do
  let start := Files.ofWorkingDirectory (← IO.currentDir).toString
  paths.foldlM (fun files path => do
    match ← readNode? path with
    | some node => return files.insert path node
    | none => return files) start

end Pipeline.Command

/-- Runs the program on the arguments of the command. -/
def main (words : List String) : IO UInt32 := do
  let configVariable ← IO.getEnv "BASHO_CONFIG"
  let input ← try pure (some (← Pipeline.Command.readInput)) catch _ => pure none
  match input with
  | none => return 1
  | some input =>
    let paths := Pipeline.Program.pathsRead words input configVariable
    let files ← Pipeline.Command.readFiles paths
    let finish := Pipeline.Program.run { words, input, files, configVariable }
    IO.print finish.output
    (← IO.getStdout).flush
    return UInt32.ofNat finish.code
