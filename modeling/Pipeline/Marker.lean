/-!
# Stage markers

The tokens with a meaning of their own: the markers, each of which begins a stage of one kind, and
the quoting token.  Any other token is expression text.

Two tables know these tokens.  One says where a run of expression text ends (`isMarker`), the other
which stage a token begins (`Marker.ofToken?`).  They name the same tokens, but for the quoting one,
which begins no stage of its own kind (`isMarker_iff`).
-/

namespace Pipeline

/-- What begins a stage. -/
inductive Marker where
  | wholeArray | combine | drop | shell | errorHandler | filter | importModule | evaluate | log
  | flatMap | name | suppressPrint | reduce | seek | terminate | write | stackRef | disableStacking
  deriving DecidableEq, Repr

namespace Marker

/-- The token of a marker. -/
def token : Marker → String
  | wholeArray => "-a"
  | combine => "-c"
  | drop => "-d"
  | shell => "-e"
  | errorHandler => "--error"
  | filter => "-f"
  | importModule => "-i"
  | evaluate => "-j"
  | log => "-l"
  | flatMap => "-m"
  | name => "-n"
  | suppressPrint => "-p"
  | reduce => "-r"
  | seek => "-s"
  | terminate => "-t"
  | write => "-w"
  | stackRef => "--stack"
  | disableStacking => "--nostack"

/-- The marker that a token is. -/
def ofToken? : String → Option Marker
  | "-a" => some wholeArray
  | "-d" => some drop
  | "--nostack" => some disableStacking
  | "-p" => some suppressPrint
  | "-c" => some combine
  | "-n" => some name
  | "-s" => some seek
  | "--stack" => some stackRef
  | "-i" => some importModule
  | "-r" => some reduce
  | "-j" => some evaluate
  | "-e" => some shell
  | "--error" => some errorHandler
  | "-f" => some filter
  | "-m" => some flatMap
  | "-t" => some terminate
  | "-l" => some log
  | "-w" => some write
  | _ => none

theorem ofToken?_token (marker : Marker) : ofToken? marker.token = some marker := by
  cases marker <;> rfl

theorem eq_token_of_ofToken? {token : String} {marker : Marker}
    (h : ofToken? token = some marker) : token = marker.token := by
  unfold ofToken? at h
  split at h <;> cases h <;> rfl

end Marker

/-- The quoting token. -/
def quoteToken : String := "-q"

/-- The tokens at which a run of expression text ends. -/
def markerTokens : List String :=
  ["-a", "-c", "-d", "-e", "-f", "-i", "-j", "-l", "-m", "-n", quoteToken, "-p", "-r", "-s", "-t",
    "-w", "--error", "--stack", "--nostack"]

/-- The token has a meaning of its own. -/
def isMarker (token : String) : Bool := markerTokens.contains token

/-- **The two tables name the same tokens.** -/
theorem isMarker_iff {token : String} :
    isMarker token = true ↔ (Marker.ofToken? token).isSome = true ∨ token = quoteToken := by
  simp only [isMarker, markerTokens, List.contains_iff_mem, List.mem_cons, List.not_mem_nil,
    or_false]
  unfold Marker.ofToken?
  split <;> simp_all [quoteToken]

theorem isMarker_eq_false {token : String} (h : Marker.ofToken? token = none)
    (hq : token ≠ quoteToken) : isMarker token = false := by
  rw [← Bool.not_eq_true, isMarker_iff, h]
  simpa using hq

theorem eq_none_of_isMarker {token : String} (h : isMarker token = false) :
    Marker.ofToken? token = none ∧ token ≠ quoteToken := by
  rw [← Bool.not_eq_true, isMarker_iff, not_or] at h
  exact ⟨Option.not_isSome_iff_eq_none.mp h.1, h.2⟩

theorem isMarker_quoteToken : isMarker quoteToken = true := isMarker_iff.mpr (.inr rfl)

theorem isMarker_token (marker : Marker) : isMarker marker.token = true :=
  isMarker_iff.mpr (.inl (by rw [Marker.ofToken?_token]; rfl))

end Pipeline
