import Pipeline.Host
import Pipeline.Prepared
import Pipeline.Stage.Basic
import Pipeline.State

/-!
# Stages — plans and transitions

Each stage turns a state into the next one.  Building evaluates nothing: the plans that stages
build do their work when they are run, and only an import acts at once.
-/

namespace Pipeline

/-- A phrase read for the host's evaluator. -/
def Host.prepare (host : Host) (phrase : Phrase) : Prepared := .ofPhrase host.evaluator phrase

/-- A phrase read as a command for the host's evaluator. -/
def Host.prepareCommand (host : Host) (phrase : Phrase) : PreparedCommand :=
  .ofPhrase host.evaluator phrase

namespace Stage

/-- Evaluates for each item, or without input once, expanding a list. -/
def evaluatePlan (input : Option (Plan Event)) (p : Prepared) (env : Environment) : Plan Event :=
  match input with
  | some plan => .map (fun item i => pure (p.call env (.ofItem item i))) plan
  | none => .deferred [] (pure (p.call env .none).expand)

/-- Runs a command once it is filled. -/
def runCommand (services : Services) (c : PreparedCommand) (env : Environment) (b : Bindings) :
    Traced Event Item :=
  match c.fill env b with
  | .error failure => pure (.failure failure)
  | .ok text => do return c.outcome (← services.command text)

/-- Runs a command for each item, or without input once. -/
def shellPlan (services : Services) (input : Option (Plan Event)) (c : PreparedCommand)
    (env : Environment) : Plan Event :=
  match input with
  | some plan => .map (fun item i => runCommand services c env (.ofItem item i)) plan
  | none => .deferred [] (do return [← runCommand services c env .none])

/-- Replaces failed items. -/
def errorHandlerPlan (input : Plan Event) (p : Prepared) (env : Environment) : Plan Event :=
  .map (fun item i => pure (if item.isFailure then p.call env (.ofFailure item i) else item)) input

/-- Keeps the items for which the phrase is truthy. -/
def filterPlan (input : Plan Event) (p : Prepared) (env : Environment) : Plan Event :=
  .filter (fun item i => pure (p.call env (.ofItem item i)).isTruthy) input

/-- Expands each item into what the phrase gives. -/
def flatMapPlan (input : Plan Event) (p : Prepared) (env : Environment) : Plan Event :=
  .flatMap (fun item i => pure (p.call env (.ofItem item i)).expand) input

/-- Folds the items from the value of the seed. -/
def reducePlan (input : Plan Event) (p seed : Prepared) (env : Environment) : Plan Event :=
  .fold (pure (seed.call env .none))
    (fun acc item i => pure (p.call env (.ofStep acc item i))) input

/-- Ends before the first item for which the phrase is `true`. -/
def terminatePlan (input : Plan Event) (p : Prepared) (env : Environment) : Plan Event :=
  .takeUntil (fun item i => pure (p.call env (.ofItem item i)).isTrue) input

/-- Hands what the phrase gives to a sink and passes the item on. -/
def tapPlan (sink : Item → Event) (input : Plan Event) (p : Prepared) (env : Environment) :
    Plan Event :=
  .map (fun item i => do
    .emit (sink (p.call env (.ofItem item i)))
    return item) input

/-- The lockstep of several plans; one that has ended counts as null. -/
def combinePlan (members : List (Plan Event)) : Plan Event :=
  .zip (fun yields => pure (.gather (yields.map (·.getD (.value .null))))) members

/-- Binds what a module exports.  A current sequence is put on the stack once more. -/
def applyImport (services : Services) (reference bound : String) (s : State) :
    Traced Event (Except BuildError State) := do
  match ← services.load reference with
  | .error cause => return .error (.importFailed reference cause)
  | .ok exports =>
    let s := s.withEnvironment (s.env.bind bound exports)
    match s.current with
    | some current => return .ok (s.advance current)
    | none => return .ok s

/-- The state after a stage that gives a new plan. -/
def produce (s : State) (plan : Plan Event) : Traced Event (Except BuildError State) :=
  pure (.ok (s.advancePlan plan))

/-- The sequences under these names; the first name without one decides an error. -/
def members (s : State) (names : List String) : Except BuildError (List (Sequence Event)) :=
  names.mapM s.lookup

/-- The state after a lockstep of named sequences. -/
def applyCombine (names : List String) (s : State) : Except BuildError State := do
  return s.advancePlan (combinePlan ((← members s names).map (·.plan)))

/-- The state after a stage. -/
def apply (host : Host) (stage : Stage) (s : State) : Traced Event (Except BuildError State) :=
  match stage with
  | .name label => pure (s.name label)
  | .seek label => pure (s.seek label)
  | .stackRef index => pure (s.stackRef index)
  | .drop => pure s.drop
  | .disableStacking => pure (.ok s.disableStacking)
  | .suppressPrint => pure (.ok s.suppressPrint)
  | .importModule reference bound => applyImport host.toServices reference bound s
  | .evaluate phrase =>
    produce s (evaluatePlan (s.current.map (·.plan)) (host.prepare phrase) s.env)
  | .shell phrase =>
    produce s
      (shellPlan host.toServices (s.current.map (·.plan)) (host.prepareCommand phrase) s.env)
  | .wholeArray => produce s (.collect Item.gather s.input)
  | .combine names => pure (applyCombine names s)
  | .errorHandler phrase => produce s (errorHandlerPlan s.input (host.prepare phrase) s.env)
  | .filter phrase => produce s (filterPlan s.input (host.prepare phrase) s.env)
  | .flatMap phrase => produce s (flatMapPlan s.input (host.prepare phrase) s.env)
  | .reduce phrase seed =>
    produce s (reducePlan s.input (host.prepare phrase) (host.prepare seed) s.env)
  | .terminate phrase => produce s (terminatePlan s.input (host.prepare phrase) s.env)
  | .log phrase => produce s (tapPlan .log s.input (host.prepare phrase) s.env)
  | .write phrase => produce s (tapPlan .write s.input (host.prepare phrase) s.env)

end Stage

end Pipeline
