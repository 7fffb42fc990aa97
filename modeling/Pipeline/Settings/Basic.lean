import Pipeline.Decimal.Numeral
import Pipeline.Settings.Document

/-!
# Settings

The settings of the program and how a file changes them.  Every key may be given once, and only
the keys of settings may be given.
-/

namespace Pipeline

/-- The settings of the program. -/
structure Settings where
  shell : String := "sh"
  shellArgs : List String := ["-c"]
  maxModuleSize : Nat := 16 * 1024 * 1024
  printErrors : Bool := false
  ignoreErrors : Bool := false
  deriving DecidableEq, Repr

namespace Settings

/-- A text. -/
def Entry.text? : Entry → Option String
  | .text s => some s
  | _ => none

/-- Takes in one setting; `none` if the key is unknown or the value of a wrong kind. -/
def set? (s : Settings) (key : String) (e : Entry) : Option Settings :=
  match key, e with
  | "shell", .text shell => some { s with shell }
  | "shell_args", .list members => do return { s with shellArgs := ← members.mapM Entry.text? }
  | "max_module_size", .whole i =>
    if 0 ≤ i ∧ i ≤ Decimal.wordMax then some { s with maxModuleSize := i.toNat } else none
  | "print_errors", .bool b => some { s with printErrors := b }
  | "ignore_errors", .bool b => some { s with ignoreErrors := b }
  | _, _ => none

/-- No key occurs twice. -/
def distinct : List String → Bool
  | [] => true
  | k :: ks => !ks.contains k && distinct ks

/-- The settings that a file asks for. -/
def ofText? (text : String) : Option Settings := do
  let pairs ← document? text
  if distinct (pairs.map (·.1)) then pairs.foldlM (fun s (key, e) => s.set? key e) {} else none

end Settings

end Pipeline
