import Pipeline.Shell.Machine
import Pipeline.Shell.Syntax

/-!
# Shell — from expanded words to fields

An expanded word is a list of pieces.  What stood between quotes stays together; what came out of
an expansion without quotes is cut at blanks.
-/

namespace Pipeline.Shell

/-- A piece of an expanded word: text that stays together, text that is cut at blanks, or a border
between two fields. -/
inductive Piece where
  | solid (text : List Char) (quoted : Bool)
  | loose (text : List Char)
  | border

/-- The fields read so far and the one that is still open. -/
structure Fields where
  done : List (List Char) := []
  current : Option (List Char) := none

namespace Fields

/-- Adds text to the open field. -/
def extend (f : Fields) (text : List Char) : Fields :=
  { f with current := some (f.current.getD [] ++ text) }

/-- Closes the open field. -/
def close (f : Fields) : Fields :=
  match f.current with
  | some text => ⟨f.done ++ [text], none⟩
  | none => f

/-- Takes in text that is cut at blanks. -/
def cut (f : Fields) (text : List Char) : Fields :=
  text.foldl (fun f c => if c = ' ' || c = '\t' || c = '\n' then f.close else f.extend [c]) f

/-- Takes in a piece. -/
def take (f : Fields) : Piece → Fields
  | .solid text quoted => if text.isEmpty && !quoted then f else f.extend text
  | .loose text => f.cut text
  | .border => f.close

/-- The fields of an expanded word. -/
def ofPieces (pieces : List Piece) : List (List Char) := (pieces.foldl take {}).close.done

end Fields

/-- The text of pieces that are not cut. -/
def Piece.text : Piece → List Char
  | .solid text _ => text
  | .loose text => text
  | .border => [' ']

/-- A piece of an expansion. -/
def Piece.ofExpansion (text : List Char) (quoted : Bool) : Piece :=
  if quoted then .solid text true else .loose text

/-- The pieces of a parameter.  Quoted `@` gives every positional parameter a field of its own. -/
def Machine.pieces (m : Machine) (name : String) (quoted : Bool) : List Piece :=
  if name = "@" && quoted then
    [Piece.border].intercalate (m.parameters.map fun p => [.solid p true])
  else [.ofExpansion ((m.parameter? name).getD []) quoted]

/-- The number that a variable holds. -/
def Machine.number (m : Machine) (name : String) : Int :=
  ((m.parameter? name).bind fun cs => (String.ofList cs).toInt?).getD 0

/-- Output as the text of an expansion: line endings at its end are dropped. -/
def capturedText (bytes : List UInt8) : List Char :=
  ((Text.decodeLossy bytes).reverse.dropWhile (· = '\n')).reverse

end Pipeline.Shell
