import Pipeline.Item
import Pipeline.Traced

/-!
# Events and services

What a pipeline does to the outside world, and what it needs from there.  Services answer from
their argument alone, so that a run can be repeated.
-/

namespace Pipeline

/-- Something a pipeline does outside itself. -/
inductive Event where
  | command (text : String)
  | load (reference : String)
  | log (item : Item)
  | write (item : Item)
  deriving Repr

/-- Runs commands and loads modules.  A command gives the lines it printed. -/
structure Services where
  command : String → Traced Event (Except String (List String))
  load : String → Traced Event (Except String Value)

namespace Services

/-- Commands that are all refused. -/
def noCommands (text : String) : Traced Event (Except String (List String)) :=
  pure (.error ("command execution is disabled: " ++ text))

/-- Modules that are all refused. -/
def noModules (reference : String) : Traced Event (Except String Value) :=
  pure (.error ("module loading is disabled: " ++ reference))

/-- Commands that are noted as events and answered by `f`. -/
def commandsBy (f : String → Except String (List String)) (text : String) :
    Traced Event (Except String (List String)) := do
  .emit (.command text)
  return f text

/-- Modules that are noted as events and answered by `f`. -/
def modulesBy (f : String → Except String Value) (reference : String) :
    Traced Event (Except String Value) := do
  .emit (.load reference)
  return f reference

/-- Answers from a table; a command that is not in it prints its own text. -/
def scriptedCommand (table : List (String × Except String (List String))) (text : String) :
    Except String (List String) :=
  (table.lookup text).getD (.ok [text])

/-- Answers from a table; a module that is not in it cannot be found. -/
def scriptedModule (table : List (String × Value)) (reference : String) : Except String Value :=
  match table.lookup reference with
  | some v => .ok v
  | none => .error ("cannot find module '" ++ reference ++ "'")

end Services

end Pipeline
