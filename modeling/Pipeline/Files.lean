import Pipeline.Text.Utf8

/-!
# Files

A tree of files and directories, and the way from a path to a node of it.  A relative path starts
at the working directory.  What stands in the way of a path is one of the errors that an operating
system reports, with its number.
-/

namespace Pipeline

/-- A file with its bytes, a device that holds nothing, or a directory with its entries. -/
inductive FileNode where
  | file (bytes : List UInt8)
  | device
  | directory (entries : List (String × FileNode))

/-- Files and a working directory, named from the root down. -/
structure Files where
  root : List (String × FileNode)
  workingDirectory : List String

/-- Why a path leads nowhere. -/
inductive PathError where
  | notFound
  | notDirectory
  | nameTooLong
  | nulByte
  deriving DecidableEq, Repr

/-- The text of a path error. -/
def PathError.message : PathError → String
  | .notFound => "No such file or directory (os error 2)"
  | .notDirectory => "Not a directory (os error 20)"
  | .nameTooLong => "File name too long (os error 36)"
  | .nulByte => "file name contained an unexpected NUL byte"

namespace Files

/-- The parts of a path between slashes. -/
def components (path : String) : List String := path.splitOn "/"

/-- The absolute path of names from the root down. -/
def absolute (names : List String) : String := "/" ++ "/".intercalate names

/-- The longest name of an entry, in bytes. -/
def nameLimit : Nat := 255

/-- The node under names from a directory down. -/
def descend (entries : List (String × FileNode)) : List String → Option FileNode
  | [] => some (.directory entries)
  | [name] => entries.lookup name
  | name :: names =>
    match entries.lookup name with
    | some (.directory inner) => descend inner names
    | _ => none

/-- The node under names from the root down. -/
def node? (fs : Files) (names : List String) : Option FileNode := descend fs.root names

/-- Goes from a place along the components of a path.  Every component but the first needs a
directory to start from. -/
def follow (fs : Files) (place : List String) : List String → Except PathError (List String)
  | [] => .ok place
  | name :: names =>
    match fs.node? place with
    | some (.directory _) =>
      if name = "" ∨ name = "." then fs.follow place names
      else if name = ".." then fs.follow place.dropLast names
      else if name.utf8ByteSize > nameLimit then .error .nameTooLong
      else if (fs.node? (place ++ [name])).isSome then fs.follow (place ++ [name]) names
      else .error .notFound
    | some (.file _) | some .device => .error .notDirectory
    | none => .error .notFound

/-- The place that a path leads to, as names from the root down. -/
def resolve (fs : Files) (path : String) : Except PathError (List String) :=
  if path.isEmpty then .error .notFound
  else if path.toList.contains (Char.ofNat 0) then .error .nulByte
  else fs.follow (if path.startsWith "/" then [] else fs.workingDirectory) (components path)

/-- The node that a path leads to. -/
def at? (fs : Files) (path : String) : Option FileNode :=
  match fs.resolve path with
  | .ok place => fs.node? place
  | .error _ => none

/-- The bytes that reading a path gives; a directory cannot be read. -/
def bytes? (fs : Files) (path : String) : Option (List UInt8) :=
  match fs.at? path with
  | some (.file bytes) => some bytes
  | some .device => some []
  | _ => none

/-- A path leads somewhere. -/
def pathExists (fs : Files) (path : String) : Bool := (fs.at? path).isSome

/-- A path leads to a file that is no device. -/
def isFile (fs : Files) (path : String) : Bool :=
  match fs.at? path with
  | some (.file _) => true
  | _ => false

/-- A path leads to a directory. -/
def isDirectory (fs : Files) (path : String) : Bool :=
  match fs.at? path with
  | some (.directory _) => true
  | _ => false

/-! ### Putting a tree together -/

/-- The names that a path stands for when every component is a directory. -/
def namesOf (workingDirectory : List String) (path : String) : List String :=
  (components path).foldl (fun place name =>
    if name = "" ∨ name = "." then place
    else if name = ".." then place.dropLast
    else place ++ [name]) (if path.startsWith "/" then [] else workingDirectory)

/-- Puts a node under names from a directory down; directories on the way are made. -/
def insertAt (node : FileNode) : List String → List (String × FileNode) → List (String × FileNode)
  | [], entries => entries
  | [name], entries => (name, node) :: entries.filter (·.1 ≠ name)
  | name :: names, entries =>
    let inner := match entries.lookup name with
      | some (.directory inner) => inner
      | _ => []
    (name, .directory (insertAt node names inner)) :: entries.filter (·.1 ≠ name)

/-- Puts a node where a path leads. -/
def insert (fs : Files) (path : String) (node : FileNode) : Files :=
  { fs with root := insertAt node (namesOf fs.workingDirectory path) fs.root }

/-- A tree that holds nothing but the way to its working directory. -/
def ofWorkingDirectory (path : String) : Files :=
  let names := namesOf [] path
  ⟨insertAt (.directory []) names [], names⟩

end Files

end Pipeline
