import Pipeline.Marker

/-!
# Phrases

A stage takes its expression from a run of tokens that are no markers.  A quoting token before the
run makes it a text that is never evaluated.
-/

namespace Pipeline

/-- The expression text of a stage: a source to evaluate, or quoted tokens. -/
inductive Phrase where
  | source (text : String)
  | quoted (tokens : List String)
  deriving DecidableEq, Repr

namespace Phrase

/-- The text of a phrase. -/
def text : Phrase → String
  | .source text => text
  | .quoted tokens => " ".intercalate tokens

/-- Nothing was written. -/
def isEmpty : Phrase → Bool
  | .source text => text.isEmpty
  | .quoted tokens => tokens.isEmpty

/-- The phrase that a run of tokens makes. -/
def ofRun (quoted : Bool) (run : List String) : Phrase :=
  if quoted then .quoted run else .source (" ".intercalate run)

end Phrase

/-- The tokens that a stage takes for its phrase: an optional quoting token, and the longest run
of tokens that are no markers. -/
structure Munch where
  quoted : Bool
  run : List String
  deriving DecidableEq, Repr

namespace Munch

/-- Takes the longest run from the front. -/
def take (tokens : List String) : Munch :=
  match tokens with
  | [] => ⟨false, []⟩
  | first :: rest =>
    if first = quoteToken then ⟨true, rest.takeWhile (!isMarker ·)⟩
    else ⟨false, tokens.takeWhile (!isMarker ·)⟩

/-- How many tokens were taken. -/
def consumed (m : Munch) : Nat := m.run.length + if m.quoted then 1 else 0

/-- The phrase of the run. -/
def phrase (m : Munch) : Phrase := .ofRun m.quoted m.run

/-- The phrase of the run without its last token, and that token. -/
def splitLast? (m : Munch) : Option (Phrase × String) :=
  m.run.getLast?.map fun last => (.ofRun m.quoted m.run.dropLast, last)

end Munch

end Pipeline
