import Pipeline.Files

/-!
# Shell — the machine

What a shell holds while it runs: variables, the status of the last command, what is left of its
input, and what it has written to its two outputs.
-/

namespace Pipeline.Shell

/-- Whether a shell goes on after a command. -/
inductive Flow where
  | going
  | exited
  | killed
  deriving DecidableEq, Repr

/-- The state of a running shell. -/
structure Machine where
  name : String
  parameters : List (List Char) := []
  assigned : List (String × List Char) := []
  status : Nat := 0
  exitOnError : Bool := false
  input : List UInt8 := []
  out : List UInt8 := []
  err : List UInt8 := []
  flow : Flow := .going

/-- Where an output goes. -/
inductive Sink where
  | out
  | err
  | nowhere
  deriving DecidableEq, Repr

/-- What a command runs in: the files, where its outputs go, and whether a failure counts. -/
structure Context where
  files : Files
  out : Sink := .out
  err : Sink := .err
  checked : Bool := true

/-- The number of the process, as far as a command can tell. -/
def processNumber : Nat := 4711

namespace Machine

/-- Writes bytes to a sink. -/
def write (m : Machine) (sink : Sink) (bytes : List UInt8) : Machine :=
  match sink with
  | .out => { m with out := m.out ++ bytes }
  | .err => { m with err := m.err ++ bytes }
  | .nowhere => m

/-- Writes text to a sink. -/
def say (m : Machine) (sink : Sink) (text : List Char) : Machine :=
  m.write sink (Text.encode text)

/-- Writes a complaint in the name of the shell, and sets the status. -/
def complain (m : Machine) (ctx : Context) (status : Nat) (text : String) : Machine :=
  { m.say ctx.err (m.name ++ ": 1: " ++ text ++ "\n").toList with status }

/-- Sets the status. -/
def ended (m : Machine) (status : Nat) : Machine := { m with status }

/-- Ends the shell with a status. -/
def exited (m : Machine) (status : Nat) : Machine := { m with status, flow := .exited }

/-- Ends the shell after a failure that counts, if it was told to. -/
def checkFailure (m : Machine) (ctx : Context) : Machine :=
  if m.exitOnError && ctx.checked && m.status ≠ 0 && m.flow = .going then m.exited m.status else m

/-- Sets a variable. -/
def assign (m : Machine) (name : String) (value : List Char) : Machine :=
  { m with assigned := (name, value) :: m.assigned.filter (·.1 ≠ name) }

/-- The text of a parameter, if it is set. -/
def parameter? (m : Machine) (name : String) : Option (List Char) :=
  match name with
  | "?" => some (toString m.status).toList
  | "$" => some (toString processNumber).toList
  | "#" => some (toString m.parameters.length).toList
  | "0" => some m.name.toList
  | "@" | "*" => some ([' '].intercalate m.parameters)
  | _ =>
    match name.toNat? with
    | some n => m.parameters[n - 1]?
    | none => m.assigned.lookup name

end Machine

end Pipeline.Shell
