import Pipeline.Evaluator
import Pipeline.Event

/-!
# Hosts

Everything that a pipeline needs from outside: an evaluator for its expressions, and services for
its commands and modules.
-/

namespace Pipeline

/-- An evaluator together with services. -/
structure Host extends Services where
  evaluator : Evaluator

/-- A host with an evaluator that runs no command and loads no module. -/
def Host.inert (evaluator : Evaluator) : Host :=
  { command := Services.noCommands, load := Services.noModules, evaluator }

/-- Services stand for the host that evaluates the expression language. -/
instance : Coe Services Host := ⟨fun services => { services with evaluator := .standard }⟩

end Pipeline
