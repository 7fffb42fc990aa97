import Pipeline.Shell.Syntax

/-!
# Shell — cutting a command into words

Quotes, backslashes and dollar signs are resolved here into the parts of words.  Every step takes
a character, so the length of the text bounds the steps.
-/

namespace Pipeline.Shell

/-- A character that starts the name of a variable. -/
def isNameStart (c : Char) : Bool := c.isAlpha || c = '_'

/-- A character of the name of a variable. -/
def isNameChar (c : Char) : Bool := c.isAlphanum || c = '_'

/-- A parameter with a name of one character that is no letter. -/
def isSpecial (c : Char) : Bool :=
  c.isDigit || c = '?' || c = '$' || c = '#' || c = '!' || c = '@' || c = '*' || c = '-'

/-- The text up to the close of a parenthesis, quotes skipped, and the rest. -/
def closeParen (depth : Nat) (quote : Option Char) : List Char → Option (List Char × List Char)
  | [] => none
  | c :: cs =>
    let more := fun depth quote => (closeParen depth quote cs).map fun (s, r) => (c :: s, r)
    match quote with
    | some q => if c = q then more depth none else more depth quote
    | none =>
      if c = '\'' || c = '"' then more depth (some c)
      else if c = '(' then more (depth + 1) none
      else if c = ')' then (if depth = 0 then some ([], cs) else more (depth - 1) none)
      else more depth none

/-- A brace expansion behind its opening brace. -/
def braced (quoted : Bool) (cs : List Char) : Option (Part × List Char) :=
  let body := cs.takeWhile (· ≠ '}')
  match cs.dropWhile (· ≠ '}') with
  | [] => none
  | _ :: rest =>
    let name := body.takeWhile fun c => isNameChar c || isSpecial c
    match body.dropWhile fun c => isNameChar c || isSpecial c with
    | [] => some (.parameter (String.ofList name) quoted, rest)
    | ':' :: '-' :: fallback => some (.default (String.ofList name) fallback quoted, rest)
    | '-' :: fallback => some (.default (String.ofList name) fallback quoted, rest)
    | _ => none

/-- The expansion behind a dollar sign; a lone dollar sign stands for itself. -/
def dollar (quoted : Bool) (cs : List Char) : Option (Part × List Char) :=
  match cs with
  | '(' :: '(' :: rest =>
    match closeParen 0 none rest with
    | some (source, ')' :: rest) => some (.arithmetic source quoted, rest)
    | _ => none
  | '(' :: rest => (closeParen 0 none rest).map fun (source, rest) => (.command source quoted, rest)
  | '{' :: rest => braced quoted rest
  | c :: rest =>
    if isNameStart c then
      some (.parameter (String.ofList (cs.takeWhile isNameChar)) quoted, cs.dropWhile isNameChar)
    else if isSpecial c then some (.parameter (String.ofList [c]) quoted, rest)
    else some (.plain ['$'] quoted, cs)
  | [] => some (.plain ['$'] quoted, [])

/-- The quote around a command whose output is taken. -/
def backquote : Char := Char.ofNat 0x60

/-- The parts of a text between double quotes, and the text behind it. -/
def doubleQuoted : Nat → List Char → Option (Word × List Char)
  | 0, _ => none
  | fuel + 1, cs =>
    match cs with
    | [] => none
    | '"' :: rest => some ([.plain [] true], rest)
    | '\\' :: c :: rest =>
      let text := if c = '"' || c = '\\' || c = '$' || c = backquote then [c]
        else if c = '\n' then [] else ['\\', c]
      (doubleQuoted fuel rest).map fun (w, r) => (.plain text true :: w, r)
    | '$' :: rest => do
      let (p, rest) ← dollar true rest
      let (w, rest) ← doubleQuoted fuel rest
      some (p :: w, rest)
    | c :: rest =>
      if c = backquote then do
        let (w, r) ← doubleQuoted fuel ((rest.dropWhile (· ≠ backquote)).drop 1)
        some (.command (rest.takeWhile (· ≠ backquote)) true :: w, r)
      else (doubleQuoted fuel rest).map fun (w, r) => (.plain [c] true :: w, r)

/-- A character that ends a word. -/
def endsWord (c : Char) : Bool :=
  c = ' ' || c = '\t' || c = '\n' || c = ';' || c = '&' || c = '|' || c = '<' || c = '>' ||
    c = '(' || c = ')'

/-- The parts of a word, and the text behind it. -/
def word : Nat → List Char → Option (Word × List Char)
  | 0, _ => none
  | fuel + 1, cs =>
    match cs with
    | [] => some ([], [])
    | '\\' :: '\n' :: rest => word fuel rest
    | '\\' :: c :: rest => (word fuel rest).map fun (w, r) => (.plain [c] true :: w, r)
    | '\'' :: rest =>
      match rest.dropWhile (· ≠ '\'') with
      | [] => none
      | _ :: after =>
        (word fuel after).map fun (w, r) => (.plain (rest.takeWhile (· ≠ '\'')) true :: w, r)
    | '"' :: rest => do
      let (quoted, rest) ← doubleQuoted fuel rest
      let (w, rest) ← word fuel rest
      some (quoted ++ w, rest)
    | '$' :: rest => do
      let (p, rest) ← dollar false rest
      let (w, rest) ← word fuel rest
      some (p :: w, rest)
    | c :: rest =>
      if endsWord c then some ([], cs)
      else if c = backquote then do
        let (w, r) ← word fuel ((rest.dropWhile (· ≠ backquote)).drop 1)
        some (.command (rest.takeWhile (· ≠ backquote)) false :: w, r)
      else (word fuel rest).map fun (w, r) => (.plain [c] false :: w, r)

/-- Adjacent plain parts of one kind as one part. -/
def fuse : Word → Word
  | .plain a p :: rest =>
    match fuse rest with
    | .plain b q :: tail => if p = q then .plain (a ++ b) p :: tail
        else .plain a p :: .plain b q :: tail
    | tail => .plain a p :: tail
  | part :: rest => part :: fuse rest
  | [] => []

/-- The operator that a line ending stands for. -/
def newlineOperator : String := "newline"

/-- The operator a text starts with, and the rest. -/
def operator? : List Char → Option (String × List Char)
  | '&' :: '&' :: cs => some ("&&", cs)
  | '|' :: '|' :: cs => some ("||", cs)
  | '>' :: '>' :: cs => some (">>", cs)
  | '>' :: '&' :: cs => some (">&", cs)
  | ';' :: ';' :: cs => some (";;", cs)
  | ';' :: cs => some (";", cs)
  | '\n' :: cs => some (newlineOperator, cs)
  | '&' :: cs => some ("&", cs)
  | '|' :: cs => some ("|", cs)
  | '>' :: cs => some (">", cs)
  | '<' :: cs => some ("<", cs)
  | '(' :: cs => some ("(", cs)
  | ')' :: cs => some (")", cs)
  | _ => none

/-- A digit right before a redirection is the descriptor it redirects. -/
def descriptor? : List Char → Option (String × List Char)
  | d :: '>' :: '&' :: cs => if d.isDigit then some (String.ofList [d, '>', '&'], cs) else none
  | d :: '>' :: cs => if d.isDigit then some (String.ofList [d, '>'], cs) else none
  | _ => none

/-- The lexemes of a text; `none` if a quote or bracket is not closed. -/
def lexemes : Nat → List Char → Option (List Lexeme)
  | 0, _ => none
  | fuel + 1, cs =>
    match cs with
    | [] => some []
    | c :: rest =>
      if c = ' ' || c = '\t' then lexemes fuel rest
      else if c = '#' then lexemes fuel (rest.dropWhile (· ≠ '\n'))
      else
        match descriptor? cs <|> operator? cs with
        | some (op, rest) => (lexemes fuel rest).map (.operator op :: ·)
        | none => do
          let (w, rest) ← word (cs.length + 1) cs
          let ls ← lexemes fuel rest
          some (.word (fuse w) :: ls)

end Pipeline.Shell
