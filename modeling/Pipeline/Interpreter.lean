import Pipeline.Stage.Apply

/-!
# Interpreting tokens

Tokens are read and applied one stage at a time; the first stage that cannot be read or applied
ends the work, whatever follows it.
-/

namespace Pipeline

namespace Interpreter

/-- One stage of a pipeline, the state after it, and the events of applying it. -/
structure Visit where
  stage : Stage
  state : Traced Event State

/-- The stages of a pipeline as far as it could be built, and the error that ended it. -/
structure Walk where
  visits : List Visit
  error : Option (Traced Event BuildError)

/-- Applies the stages of the tokens to a state, one after the other. -/
def walk (host : Host) (s : State) (tokens : List String) : Walk :=
  match tokens with
  | [] => ⟨[], none⟩
  | first :: args =>
    match _h : Stage.parse (first :: args) with
    | .error e => ⟨[], some (pure e)⟩
    | .ok (stage, n) =>
      match stage.apply host s with
      | ⟨events, .error e⟩ => ⟨[], some ⟨events, e⟩⟩
      | ⟨events, .ok next⟩ =>
        let rest := walk host next ((first :: args).drop n)
        ⟨⟨stage, events, next⟩ :: rest.visits, rest.error⟩
termination_by tokens.length
decreasing_by
  have := Stage.consumed_parse_pos _h
  simp only [List.length_drop, List.length_cons]
  omega

/-- The state after all stages, or the error of the first that fails, with all events of
building. -/
def runFrom (host : Host) (s : State) (tokens : List String) :
    Traced Event (Except BuildError State) :=
  let w := walk host s tokens
  let events := w.visits.flatMap (·.state.events)
  match w.error with
  | some e => ⟨events ++ e.events, .error e.value⟩
  | none => ⟨events, .ok (((w.visits.map (·.state.value)).getLast?).getD s)⟩

/-- The pipeline that tokens stand for, with items to start from or without. -/
def run (host : Host) (tokens : List String) (initial : Option (List Item)) :
    Traced Event (Except BuildError Output) := do
  match ← runFrom host (.initial initial) tokens with
  | .ok s => return .ok s.finish
  | .error e => return .error e

end Interpreter

end Pipeline
