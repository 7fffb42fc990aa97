import Pipeline.Settings.Text

/-!
# Settings files — documents

A settings file is a TOML file of keys and values.  Read are the forms that a setting can take:
plain or quoted keys; strings, whole numbers, booleans, and lists of these.  A file with anything
else in it, a table or a date, holds something that is no setting and is refused as a whole.
-/

namespace Pipeline.Settings

/-- A value of a setting. -/
inductive Entry where
  | text (s : String)
  | whole (i : Int)
  | bool (b : Bool)
  | list (members : List Entry)

/-! ### Whole numbers -/

/-- Drops the underscores of a number: each has to stand between two digits. -/
def joinDigits? (isDigit : Char → Bool) : List Char → Option (List Char)
  | [] => none
  | [c] => if isDigit c then some [c] else none
  | c :: '_' :: cs => if isDigit c then (joinDigits? isDigit cs).map (c :: ·) else none
  | c :: cs => if isDigit c then (joinDigits? isDigit cs).map (c :: ·) else none

/-- The value of digits in a base. -/
def baseValue (base : Nat) (ds : List Char) : Nat :=
  ds.foldl (fun n d => n * base + (Value.hexValue? d).getD 0) 0

/-- The digits of a base. -/
def isBaseDigit (base : Nat) (c : Char) : Bool := (Value.hexValue? c).any (· < base)

/-- A number in a base other than ten. -/
def based? (base : Nat) (cs : List Char) : Option Int :=
  (joinDigits? (isBaseDigit base) cs).map fun ds => (baseValue base ds : Int)

/-- A number in base ten: no zero before other digits. -/
def decimal? (cs : List Char) : Option Nat := do
  let ds ← joinDigits? Char.isDigit cs
  if ds.head? = some '0' && ds.length > 1 then none else some (baseValue 10 ds)

/-- A whole number. -/
def whole? : List Char → Option Int
  | '0' :: 'x' :: cs => based? 16 cs
  | '0' :: 'o' :: cs => based? 8 cs
  | '0' :: 'b' :: cs => based? 2 cs
  | '+' :: cs => (decimal? cs).map fun n => (n : Int)
  | '-' :: cs => (decimal? cs).map fun n => -(n : Int)
  | cs => (decimal? cs).map fun n => (n : Int)

/-- A word: what stands for a number or a boolean. -/
def word? (cs : List Char) : Option Entry :=
  if cs = "true".toList then some (.bool true)
  else if cs = "false".toList then some (.bool false)
  else (whole? cs).map .whole

/-- A character of a word. -/
def isWordChar (c : Char) : Bool := c.isAlphanum || c = '_' || c = '+' || c = '-' || c = '.'

/-! ### Values -/

/-- What follows a comment. -/
def dropComment (cs : List Char) : List Char :=
  match cs with
  | '#' :: rest => rest.dropWhile isPlain
  | _ => cs

/-- Blanks, line endings and comments dropped between the members of a list. -/
def dropGaps : Nat → List Char → List Char
  | 0, cs => cs
  | fuel + 1, cs =>
    match cs with
    | '#' :: _ => dropGaps fuel (dropComment cs)
    | '\r' :: '\n' :: rest => dropGaps fuel rest
    | c :: rest => if isLineBlank c || c = '\n' then dropGaps fuel rest else cs
    | [] => []

mutual

/-- A value at the start of a text. -/
def value? : Nat → List Char → Option (Entry × List Char)
  | 0, _ => none
  | fuel + 1, cs =>
    match cs with
    | '[' :: rest => (members? fuel (dropGaps rest.length rest)).map fun (es, r) => (.list es, r)
    | '"' :: _ | '\'' :: _ => (anyString cs).map fun (s, r) => (.text (String.ofList s), r)
    | _ => (word? (cs.takeWhile isWordChar)).map (·, cs.dropWhile isWordChar)

/-- The members of a list and its close; a comma may follow the last one. -/
def members? : Nat → List Char → Option (List Entry × List Char)
  | 0, _ => none
  | fuel + 1, cs =>
    match cs with
    | ']' :: rest => some ([], rest)
    | _ =>
      match value? fuel cs with
      | none => none
      | some (e, rest) =>
        match dropGaps rest.length rest with
        | ',' :: rest => (members? fuel (dropGaps rest.length rest)).map fun (es, r) => (e :: es, r)
        | ']' :: rest => some ([e], rest)
        | _ => none

end

/-! ### Lines -/

/-- A character of a plain key. -/
def isKeyChar (c : Char) : Bool := c.isAlphanum || c = '_' || c = '-'

/-- A key at the start of a text: plain, or quoted on one line. -/
def key? (cs : List Char) : Option (List Char × List Char) :=
  match cs with
  | '"' :: rest => lineString '"' true cs.length rest
  | '\'' :: rest => lineString '\'' false cs.length rest
  | _ =>
    if (cs.takeWhile isKeyChar).isEmpty then none
    else some (cs.takeWhile isKeyChar, cs.dropWhile isKeyChar)

/-- A key, the equals sign and the value. -/
def pair? (cs : List Char) : Option ((String × Entry) × List Char) := do
  let (key, rest) ← key? cs
  match rest.dropWhile isLineBlank with
  | '=' :: rest =>
    let (e, rest) ← value? (rest.length + 1) (rest.dropWhile isLineBlank)
    some ((String.ofList key, e), rest)
  | _ => none

/-- The end of a line: blanks, perhaps a comment, and a line ending or the end of the text. -/
def lineEnd? (cs : List Char) : Option (List Char) :=
  match dropComment (cs.dropWhile isLineBlank) with
  | [] => some []
  | rest => (newline? rest).map rest.drop

/-- The pairs of a file, line by line. -/
def pairs? : Nat → List Char → Option (List (String × Entry))
  | 0, _ => none
  | _, [] => some []
  | fuel + 1, cs =>
    let line := cs.dropWhile isLineBlank
    match lineEnd? line with
    | some rest => pairs? fuel rest
    | none => do
      let (p, rest) ← pair? line
      let rest ← lineEnd? rest
      (pairs? fuel rest).map (p :: ·)

/-- The pairs of a file; a byte order mark may stand before them. -/
def document? (text : String) : Option (List (String × Entry)) :=
  let cs := match text.toList with
    | c :: rest => if c.toNat = 0xFEFF then rest else c :: rest
    | [] => []
  pairs? (cs.length + 1) cs

end Pipeline.Settings
