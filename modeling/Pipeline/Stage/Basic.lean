import Pipeline.BuildError
import Pipeline.Decimal.Numeral
import Pipeline.Phrase
import Pipeline.Text.Split

/-!
# Stages

One step of a pipeline, read from the front of a token list.  A marker decides the stage; tokens
without a marker, quoted or not, are an expression to evaluate.  Whether a name exists or an index
is in range is not looked at here.
-/

namespace Pipeline

/-- A step of a pipeline. -/
inductive Stage where
  | evaluate (phrase : Phrase)
  | wholeArray
  | combine (names : List String)
  | drop
  | shell (phrase : Phrase)
  | errorHandler (phrase : Phrase)
  | filter (phrase : Phrase)
  | importModule (reference bound : String)
  | flatMap (phrase : Phrase)
  | name (name : String)
  | disableStacking
  | suppressPrint
  | reduce (phrase seed : Phrase)
  | seek (name : String)
  | stackRef (index : Nat)
  | terminate (phrase : Phrase)
  | log (phrase : Phrase)
  | write (phrase : Phrase)
  deriving DecidableEq, Repr

namespace Stage

/-- The names in the argument of a combination: parts between commas that are not empty. -/
def combineNames (argument : String) : List String :=
  ((Text.split [','] argument.toList).filter (!·.isEmpty)).map String.ofList

/-- The argument of a marker at a position, behind which `need` names what is lacking. -/
def argument (marker : Marker) (need : Need) (args : List String) (position : Nat) :
    Except BuildError String :=
  match args[position]? with
  | some arg => .ok arg
  | none => .error (.missingArgument (some marker) need)

/-- A stage that takes a phrase, and the number of tokens it takes with its marker. -/
def withPhrase (stage : Phrase → Stage) (args : List String) : Except BuildError (Stage × Nat) :=
  let m := Munch.take args
  .ok (stage m.phrase, m.consumed + 1)

/-- A fold: the last token of the run is the seed, and something has to stand before it. -/
def parseReduce (args : List String) : Except BuildError (Stage × Nat) :=
  let m := Munch.take args
  match m.splitLast? with
  | some (phrase, seed) =>
    if phrase.isEmpty then .error (.missingArgument (some .reduce) .expressionAndSeed)
    else .ok (.reduce phrase (.ofRun m.quoted [seed]), m.consumed + 1)
  | none => .error (.missingArgument (some .reduce) .expressionAndSeed)

/-- The stage that a marker and the tokens behind it make, and the number of tokens it takes. -/
def parseMarked (marker : Marker) (args : List String) : Except BuildError (Stage × Nat) :=
  match marker with
  | .wholeArray => .ok (.wholeArray, 1)
  | .drop => .ok (.drop, 1)
  | .disableStacking => .ok (.disableStacking, 1)
  | .suppressPrint => .ok (.suppressPrint, 1)
  | .combine => do
    let names := combineNames (← argument marker .names args 0)
    if names.isEmpty then .error (.missingArgument (some marker) .oneName)
    else return (.combine names, 2)
  | .name => do return (.name (← argument marker .name args 0), 2)
  | .seek => do return (.seek (← argument marker .name args 0), 2)
  | .stackRef => do
    let raw ← argument marker .stackIndex args 0
    match Decimal.readWord? raw with
    | some index => return (.stackRef index, 2)
    | none => .error (.invalidArgument marker raw)
  | .importModule => do
    let reference ← argument marker .moduleReference args 0
    let bound ← argument marker .importAlias args 1
    return (.importModule reference bound, 3)
  | .reduce => parseReduce args
  | .evaluate => withPhrase .evaluate args
  | .shell => withPhrase .shell args
  | .errorHandler => withPhrase .errorHandler args
  | .filter => withPhrase .filter args
  | .flatMap => withPhrase .flatMap args
  | .terminate => withPhrase .terminate args
  | .log => withPhrase .log args
  | .write => withPhrase .write args

/-- The stage at the front of the tokens, and the number of tokens it takes. -/
def parse : List String → Except BuildError (Stage × Nat)
  | [] => .error (.missingArgument none .stage)
  | first :: args =>
    match Marker.ofToken? first with
    | some marker => parseMarked marker args
    | none =>
      let m := Munch.take (first :: args)
      .ok (.evaluate m.phrase, m.consumed)

/-- A token that begins no stage of its own kind belongs to the run it starts, or quotes it. -/
theorem consumed_take_pos {first : String} (args : List String)
    (h : Marker.ofToken? first = none) : 0 < (Munch.take (first :: args)).consumed := by
  by_cases hq : first = quoteToken
  · simp [Munch.take, hq, Munch.consumed]
  · have hm : isMarker first = false := isMarker_eq_false h hq
    simp [Munch.take, hq, hm, Munch.consumed]

theorem consumed_parseMarked_pos {marker : Marker} {args : List String} {stage : Stage} {n : Nat}
    (h : parseMarked marker args = .ok (stage, n)) : 0 < n := by
  cases marker
  case combine =>
    simp only [parseMarked, argument, bind, Except.bind] at h
    split at h
    · cases h
    · split at h <;> cases h; decide
  case name | seek =>
    simp only [parseMarked, argument, bind, Except.bind] at h
    split at h <;> cases h; decide
  case stackRef =>
    simp only [parseMarked, argument, bind, Except.bind] at h
    split at h
    · cases h
    · split at h <;> cases h; decide
  case importModule =>
    simp only [parseMarked, argument, bind, Except.bind] at h
    split at h
    · cases h
    · split at h <;> cases h; decide
  case reduce =>
    simp only [parseMarked, parseReduce] at h
    split at h
    · split at h <;> cases h; exact Nat.succ_pos _
    · cases h
  case wholeArray | drop | disableStacking | suppressPrint =>
    cases h; decide
  all_goals
    simp only [parseMarked, withPhrase] at h
    cases h
    exact Nat.succ_pos _

/-- Every stage takes a token at least. -/
theorem consumed_parse_pos {tokens : List String} {stage : Stage} {n : Nat}
    (h : parse tokens = .ok (stage, n)) : 0 < n := by
  unfold parse at h
  split at h
  · cases h
  · split at h
    · exact consumed_parseMarked_pos h
    · next hnone =>
      cases h
      exact consumed_take_pos _ hnone

/-- The stages at the front of the tokens, one after the other, each with the number of tokens it
takes, up to the end or the first error. -/
def parseAll (tokens : List String) : List (Stage × Nat) × Option BuildError :=
  match _h : parse tokens with
  | .error e => ([], some e)
  | .ok (stage, n) =>
    if tokens.drop n = [] then ([(stage, n)], none)
    else
      let rest := parseAll (tokens.drop n)
      ((stage, n) :: rest.1, rest.2)
termination_by tokens.length
decreasing_by
  have hpos := consumed_parse_pos _h
  have : tokens ≠ [] := by
    rintro rfl
    simp [parse] at _h
  have := List.length_pos_iff.2 this
  simp only [List.length_drop]
  omega

/-- A word for the kind of a stage. -/
def kind : Stage → String
  | .evaluate _ => "evaluate"
  | .wholeArray => "whole-array"
  | .combine _ => "combine"
  | .drop => "drop"
  | .shell _ => "shell"
  | .errorHandler _ => "error-handler"
  | .filter _ => "filter"
  | .importModule _ _ => "import"
  | .flatMap _ => "flat-map"
  | .name _ => "name"
  | .disableStacking => "disable-stacking"
  | .suppressPrint => "suppress-print"
  | .reduce _ _ => "reduce"
  | .seek _ => "seek"
  | .stackRef _ => "stack-ref"
  | .terminate _ => "terminate"
  | .log _ => "log"
  | .write _ => "write"

end Stage

end Pipeline
