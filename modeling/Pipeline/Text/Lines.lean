/-!
# Text — lines

A line ends at a line feed, and a carriage return directly before that line feed belongs to the
ending.  Text behind the last line feed is a line of its own, kept as it is.
-/

namespace Pipeline.Text

/-- A line that a line feed ended, without the carriage return of its ending. -/
def dropReturn (line : List Char) : List Char :=
  if line.getLast? = some '\r' then line.dropLast else line

/-- The lines of a text of which `read` has been read since the last line feed. -/
def linesFrom (read : List Char) : List Char → List (List Char)
  | [] => if read.isEmpty then [] else [read]
  | c :: rest =>
    if c = '\n' then dropReturn read :: linesFrom [] rest else linesFrom (read ++ [c]) rest

/-- The lines of a text. -/
def lines (text : List Char) : List (List Char) := linesFrom [] text

/-- The lines of a text that hold at least one character. -/
def filledLines (text : String) : List String :=
  ((lines text.toList).filter (!·.isEmpty)).map String.ofList

end Pipeline.Text
