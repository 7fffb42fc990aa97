import Pipeline.Marker

/-!
# Build errors

What stops a pipeline from being built.  Failures of single items are no build errors: they travel
as data.
-/

namespace Pipeline

/-- What a stage lacks. -/
inductive Need where
  | stage
  | names
  | oneName
  | name
  | stackIndex
  | moduleReference
  | importAlias
  | expressionAndSeed
  deriving DecidableEq, Repr

/-- How a message names what is lacking. -/
def Need.text : Need → String
  | .stage => "a stage"
  | .names => "a comma separated list of names"
  | .oneName => "at least one name"
  | .name => "a name"
  | .stackIndex => "a stack index"
  | .moduleReference => "a module reference"
  | .importAlias => "an alias"
  | .expressionAndSeed => "an expression and a seed"

/-- Why a pipeline cannot be built. -/
inductive BuildError where
  | nameTaken (name : String)
  | alreadyNamed (name : String)
  | unknownName (name : String)
  | stackIndexOutOfRange (index depth : Nat)
  | stackUnderflow (depth : Nat)
  | missingArgument (stage : Option Marker) (need : Need)
  | invalidArgument (stage : Marker) (value : String)
  | importFailed (reference cause : String)
  deriving DecidableEq, Repr

/-- The text of a build error. -/
def BuildError.message : BuildError → String
  | .nameTaken name => "Name '" ++ name ++ "' is already bound to a sequence"
  | .alreadyNamed name => "Cannot name already named sequence " ++ name
  | .unknownName name => "No sequence named '" ++ name ++ "'"
  | .stackIndexOutOfRange index depth =>
    "Stack index " ++ toString index ++ " is out of range (stack depth " ++ toString depth ++ ")"
  | .stackUnderflow depth =>
    "Cannot drop a result: the stack holds " ++ toString depth ++
      " entries, at least 2 are needed"
  | .missingArgument stage need =>
    (stage.elim "pipeline" Marker.token) ++ " requires " ++ need.text
  | .invalidArgument stage value => stage.token ++ ": invalid argument '" ++ value ++ "'"
  | .importFailed reference cause => "failed to import '" ++ reference ++ "': " ++ cause

end Pipeline
