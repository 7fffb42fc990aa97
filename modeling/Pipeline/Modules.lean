import Pipeline.Files
import Pipeline.Value.Reader

/-!
# Modules

A module is a JSON file; what it holds is what it exports.  References that start with `./` or
`../` are taken from a base directory, others as they are.  A file above the size limit is not
read.
-/

namespace Pipeline

/-- Where modules are looked for, and how large they may be. -/
structure ModuleLoader where
  base : String
  maxSize : Nat

/-- Why a module cannot be loaded. -/
inductive ModuleError where
  | badPath (path : String) (cause : PathError)
  | notFile (path : String)
  | tooLarge (size limit : Nat)
  | notText (path : String)
  | notJson (path : String)

/-- The text of a module error. -/
def ModuleError.message : ModuleError → String
  | .badPath path cause => "Invalid module path '" ++ path ++ "': " ++ cause.message
  | .notFile path => "Path '" ++ path ++ "' is not a regular file"
  | .tooLarge size limit =>
    "File size " ++ toString size ++ " bytes exceeds maximum allowed " ++ toString limit ++ " bytes"
  | .notText path => "Failed to read " ++ path ++ ": stream did not contain valid UTF-8"
  | .notJson path => "Invalid JSON in " ++ path

namespace ModuleLoader

/-- The path that a reference stands for. -/
def path (l : ModuleLoader) (reference : String) : String :=
  if reference.startsWith "./" || reference.startsWith "../" then l.base ++ "/" ++ reference
  else reference

/-- What the bytes of a module export; `place` is where they were found. -/
def parse (place : String) (bytes : List UInt8) : Except ModuleError Value :=
  match Text.decode? bytes with
  | none => .error (.notText place)
  | some cs =>
    match Value.ofJson? (String.ofList cs) with
    | some v => .ok v
    | none => .error (.notJson place)

/-- What a module exports. -/
def load (l : ModuleLoader) (fs : Files) (reference : String) : Except ModuleError Value :=
  let path := l.path reference
  match fs.resolve path with
  | .error cause => .error (.badPath path cause)
  | .ok place =>
    match fs.node? place with
    | some (.file bytes) =>
      if bytes.length > l.maxSize then .error (.tooLarge bytes.length l.maxSize)
      else parse (Files.absolute place) bytes
    | _ => .error (.notFile path)

end ModuleLoader

end Pipeline
