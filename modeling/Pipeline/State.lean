import Pipeline.Bindings
import Pipeline.BuildError
import Pipeline.Event
import Pipeline.Sequence

/-!
# Pipeline states

What a pipeline under construction holds between two stages: the current sequence, the sequences
that were given names, the stack of earlier results, two switches and the environment.  Lists run
from the oldest entry to the newest.
-/

namespace Pipeline

/-- A sequence under a name. -/
structure Named where
  name : String
  sequence : Sequence Event

/-- What the next stage starts from. -/
structure State where
  current : Option (Sequence Event)
  registry : List Named
  stack : List (Sequence Event)
  stacking : Bool
  mustPrint : Bool
  env : Environment
  nextHandle : Handle

/-- What a finished pipeline gives. -/
structure Output where
  mustPrint : Bool
  plan : Plan Event

namespace State

/-- Before the first stage, with items to start from or without. -/
def initial (items : Option (List Item)) : State where
  current := items.map fun xs => ⟨0, .items xs⟩
  registry := []
  stack := []
  stacking := true
  mustPrint := true
  env := .empty
  nextHandle := 1

/-- The plan of the current sequence, without items if there is none. -/
def input (s : State) : Plan Event :=
  match s.current with
  | some sequence => sequence.plan
  | none => .empty

/-- The named sequence under a name. -/
def find? (s : State) (name : String) : Option Named :=
  s.registry.find? (·.name = name)

/-- The sequence under a name. -/
def lookup (s : State) (name : String) : Except BuildError (Sequence Event) :=
  match s.find? name with
  | some named => .ok named.sequence
  | none => .error (.unknownName name)

/-- The named sequence that the current one is. -/
def currentNamed? (s : State) : Option Named :=
  s.current.bind fun current => s.registry.find? (·.sequence.same current)

/-- Makes a sequence current, and puts it on the stack while stacking is on. -/
def advance (s : State) (sequence : Sequence Event) : State :=
  { s with
    current := some sequence
    stack := if s.stacking then s.stack ++ [sequence] else s.stack }

/-- Makes a plan current under a new handle. -/
def advancePlan (s : State) (plan : Plan Event) : State :=
  { s with nextHandle := s.nextHandle + 1 }.advance ⟨s.nextHandle, plan⟩

/-- Gives the current sequence a name.  Where there is none, an empty one gets it. -/
def name (s : State) (name : String) : Except BuildError State :=
  match s.find? name with
  | some _ => .error (.nameTaken name)
  | none =>
    match s.currentNamed? with
    | some named => .error (.alreadyNamed named.name)
    | none =>
      match s.current with
      | some sequence => .ok { s with registry := s.registry ++ [⟨name, sequence⟩] }
      | none => .ok { s with
          registry := s.registry ++ [⟨name, s.nextHandle, .empty⟩]
          nextHandle := s.nextHandle + 1 }

/-- Goes on from a named sequence, under a new handle. -/
def seek (s : State) (name : String) : Except BuildError State := do
  return s.advancePlan (← s.lookup name).plan

/-- The stack entry `index` places from the newest. -/
def entry? (s : State) (index : Nat) : Option (Sequence Event) :=
  s.stack.reverse[index]?

/-- Goes on from an entry of the stack, under a new handle. -/
def stackRef (s : State) (index : Nat) : Except BuildError State :=
  match s.entry? index with
  | some sequence => .ok (s.advancePlan sequence.plan)
  | none => .error (.stackIndexOutOfRange index s.stack.length)

/-- Takes the newest entry from the stack and goes on from the one below. -/
def drop (s : State) : Except BuildError State :=
  if s.stack.length < 2 then .error (.stackUnderflow s.stack.length)
  else .ok { s with stack := s.stack.dropLast, current := s.stack.dropLast.getLast? }

/-- Puts no more sequences on the stack. -/
def disableStacking (s : State) : State := { s with stacking := false }

/-- Asks for the result not to be printed. -/
def suppressPrint (s : State) : State := { s with mustPrint := false }

/-- The environment of the stages built from here on. -/
def withEnvironment (s : State) (env : Environment) : State := { s with env }

/-- The result of the pipeline. -/
def finish (s : State) : Output := ⟨s.mustPrint, s.input⟩

end State

end Pipeline
