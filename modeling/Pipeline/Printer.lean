import Pipeline.Interpreter
import Pipeline.Text.Lines

/-!
# Printing a pipeline

A pipeline is pulled item by item, and its values are printed one to a line, in between what its
log and write stages put out.  A policy decides what a failed item does.
-/

namespace Pipeline

/-- What to do with a failed item: print it and end, print it and go on, or go on. -/
inductive ErrorPolicy where
  | fail
  | print
  | ignore
  deriving DecidableEq, Repr

/-- The policy that two switches ask for; printing wins. -/
def ErrorPolicy.ofFlags (print ignore : Bool) : ErrorPolicy :=
  if print then .print else if ignore then .ignore else .fail

/-- One write to the output, by its origin. -/
inductive Output.Write where
  | log (item : Item)
  | raw (item : Item)
  | value (item : Item)
  | failure (message : String)

/-- The text of a write. -/
def Output.Write.text : Output.Write → String
  | .log item => item.display ++ "\n"
  | .raw item => item.display
  | .value item => item.display ++ "\n"
  | .failure message => message ++ "\n"

/-- What a run printed, and the exit code. -/
structure Printed where
  writes : List Output.Write
  code : Nat

namespace Printed

/-- The whole text. -/
def text (p : Printed) : String := String.join (p.writes.map (·.text))

/-- Writes that come first. -/
def after (writes : List Output.Write) (p : Printed) : Printed := ⟨writes ++ p.writes, p.code⟩

end Printed

namespace Printer

/-- What the events of a pull write. -/
def eventWrites (events : List Event) : List Output.Write :=
  events.filterMap fun
    | .log item => some (.log item)
    | .write item => some (.raw item)
    | .command _ | .load _ => none

/-- Prints a run pull by pull, until the end or until a failed item ends the work. -/
def printTrace (policy : ErrorPolicy) (mustPrint : Bool) : Trace Event → Printed
  | .ended events => ⟨eventWrites events, 0⟩
  | .pull ⟨events, .value v⟩ rest =>
    (printTrace policy mustPrint (rest ())).after
      (eventWrites events ++ if mustPrint then [.value (.value v)] else [])
  | .pull ⟨events, .failure e⟩ rest =>
    match policy with
    | .fail => ⟨eventWrites events ++ [.failure e.message], 1⟩
    | .print =>
      (printTrace policy mustPrint (rest ())).after (eventWrites events ++ [.failure e.message])
    | .ignore => (printTrace policy mustPrint (rest ())).after (eventWrites events)

/-- Prints a run of a pipeline. -/
def print (policy : ErrorPolicy) (output : Output) : Printed :=
  (printTrace policy output.mustPrint output.plan.trace).after (eventWrites output.plan.opening)

/-- Builds and prints a pipeline. -/
def run (host : Host) (policy : ErrorPolicy) (tokens : List String) :
    Except BuildError Printed := do
  return print policy (← (Interpreter.run host tokens none).value)

end Printer

/-- The tokens of piped lines that hold something, and then the arguments. -/
def assembleTokens (piped : Option String) (args : List String) : List String :=
  (piped.map Text.filledLines).getD [] ++ args

end Pipeline
