import Pipeline.Value.Reader

/-!
# Settings files — strings

The four kinds of strings of a TOML file.  A basic string stands between double quotes and knows
escapes; a literal string stands between single quotes and is taken as it is; three quotes instead
of one let either run over several lines.
-/

namespace Pipeline.Settings

/-- A character that may stand in a comment or a string: no control character but the tab. -/
def isPlain (c : Char) : Bool :=
  c = '\t' || (c.toNat ≥ 0x20 && c.toNat ≠ 0x7F)

/-- The character that a one-letter escape stands for. -/
def letterEscape? : Char → Option Char
  | 'b' => some (Char.ofNat 0x8)
  | 't' => some '\t'
  | 'n' => some '\n'
  | 'f' => some (Char.ofNat 0xC)
  | 'r' => some '\r'
  | 'e' => some (Char.ofNat 0x1B)
  | '"' => some '"'
  | '\\' => some '\\'
  | _ => none

/-- The character with the code that hexadecimal digits give, if there is one. -/
def codeEscape? (digits : List Char) : Option Char := do
  let n ← Value.hexValues? digits
  if n.isValidChar then some (Char.ofNat n) else none

/-- The length of the code that an escape letter announces. -/
def codeLength? : Char → Option Nat
  | 'x' => some 2
  | 'u' => some 4
  | 'U' => some 8
  | _ => none

/-- The character of an escape behind its backslash, and how many characters it takes. -/
def escape? : List Char → Option (Char × Nat)
  | [] => none
  | c :: cs =>
    match codeLength? c with
    | some n => if n ≤ cs.length then (codeEscape? (cs.take n)).map (·, n + 1) else none
    | none => (letterEscape? c).map (·, 1)

/-- The length of the line ending that a text starts with. -/
def newline? : List Char → Option Nat
  | '\n' :: _ => some 1
  | '\r' :: '\n' :: _ => some 2
  | _ => none

/-- Blanks inside a line. -/
def isLineBlank (c : Char) : Bool := c = ' ' || c = '\t'

/-- Blanks and line endings dropped from the front, as after a backslash that ends a line. -/
def dropBreaks : List Char → List Char
  | '\r' :: '\n' :: cs => dropBreaks cs
  | c :: cs => if isLineBlank c || c = '\n' then dropBreaks cs else c :: cs
  | [] => []

/-- The body of a one-line string, the text behind it, and how it was closed.  Each step takes a
character, so `fuel` bounds the length. -/
def lineString (quote : Char) (escapes : Bool) : Nat → List Char → Option (List Char × List Char)
  | 0, _ => none
  | _, [] => none
  | fuel + 1, c :: cs =>
    if c = quote then some ([], cs)
    else if escapes && c = '\\' then do
      let (e, n) ← escape? cs
      let (body, rest) ← lineString quote escapes fuel (cs.drop n)
      some (e :: body, rest)
    else if isPlain c then do
      let (body, rest) ← lineString quote escapes fuel cs
      some (c :: body, rest)
    else none

/-- How many quotes a text starts with, at most five. -/
def quoteRun (quote : Char) (cs : List Char) : Nat :=
  ((cs.take 5).takeWhile (· = quote)).length

/-- The body of a string over several lines.  Up to two quotes may stand directly before the three
that close it. -/
def blockString (quote : Char) (escapes : Bool) : Nat → List Char → Option (List Char × List Char)
  | 0, _ => none
  | _, [] => none
  | fuel + 1, c :: cs =>
    let quotes := quoteRun quote (c :: cs)
    if quotes ≥ 3 then some (List.replicate (quotes - 3) quote, (c :: cs).drop quotes)
    else if escapes && c = '\\' then
      match newline? (cs.dropWhile isLineBlank) with
      | some _ => blockString quote escapes fuel (dropBreaks cs)
      | none => do
        let (e, n) ← escape? cs
        let (body, rest) ← blockString quote escapes fuel (cs.drop n)
        some (e :: body, rest)
    else
      match newline? (c :: cs) with
      | some n => do
        let (body, rest) ← blockString quote escapes fuel ((c :: cs).drop n)
        some ((c :: cs).take n ++ body, rest)
      | none =>
        if isPlain c then do
          let (body, rest) ← blockString quote escapes fuel cs
          some (c :: body, rest)
        else none

/-- A string of any kind at the start of a text.  A line ending right behind three opening quotes
is dropped. -/
def anyString (cs : List Char) : Option (List Char × List Char) :=
  let fuel := cs.length
  match cs with
  | '"' :: '"' :: '"' :: rest => blockString '"' true fuel (rest.drop ((newline? rest).getD 0))
  | '\'' :: '\'' :: '\'' :: rest => blockString '\'' false fuel (rest.drop ((newline? rest).getD 0))
  | '"' :: rest => lineString '"' true fuel rest
  | '\'' :: rest => lineString '\'' false fuel rest
  | _ => none

end Pipeline.Settings
