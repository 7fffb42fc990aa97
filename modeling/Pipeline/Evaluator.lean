import Pipeline.Expr.Eval

/-!
# Evaluators

What turns the source of an expression into an item.  A pipeline can be given any evaluator; the
standard one reads and evaluates the expressions of `Expr`.  An evaluator answers from its
arguments alone.
-/

namespace Pipeline

/-- Reads and evaluates sources.  A source that `compile` refuses fails for every item. -/
structure Evaluator where
  compile : String → Except String Unit
  evaluate : String → Bindings → Environment → Except String Item

namespace Evaluator

/-- The evaluator of the expression language. -/
def standard : Evaluator where
  compile source :=
    match Expr.ofSource source with
    | .ok _ => .ok ()
    | .error e => .error e.message
  evaluate source b env := (evalSource source b env).mapError SourceError.message

end Evaluator

end Pipeline
