import Pipeline.Shell.Lexer

/-!
# Shell — reading commands

A list of lexemes becomes a command.  Reserved words count at the start of a command only.
-/

namespace Pipeline.Shell

/-- Words that end the list of commands they stand in. -/
def isListEnd (s : String) : Bool :=
  s = "then" || s = "elif" || s = "else" || s = "fi" || s = "do" || s = "done" || s = "\x7d"

/-- The list of commands ends here. -/
def atListEnd : List Lexeme → Bool
  | [] => true
  | .operator ")" :: _ => true
  | l :: _ => l.bare?.any isListEnd

/-- Line endings before the next command. -/
def skipNewlines : List Lexeme → List Lexeme
  | .operator op :: rest => if op = newlineOperator then skipNewlines rest else .operator op :: rest
  | ls => ls

/-- A semicolon and line endings before a reserved word. -/
def skipSeparators : List Lexeme → List Lexeme
  | .operator ";" :: rest => skipNewlines rest
  | ls => skipNewlines ls

/-- The descriptor that an operator redirects. -/
def redirectDescriptor (op : String) : Nat :=
  match op.toList with
  | d :: _ => if d.isDigit then d.toNat - '0'.toNat else 1
  | [] => 1

/-- A redirection, and what follows it. -/
def redirect? : List Lexeme → Option (Redirect × List Lexeme)
  | .operator op :: .word w :: rest =>
    if op = "<" then some (.input w, rest)
    else if op.endsWith ">&" then
      match w with
      | [.plain [d] _] =>
        if d.isDigit then some (.duplicate (redirectDescriptor op) (d.toNat - '0'.toNat), rest)
        else none
      | _ => none
    else if op.endsWith ">" then some (.output (redirectDescriptor op) w, rest)
    else none
  | _ => none

/-- The redirections behind a compound command. -/
def redirects : Nat → List Lexeme → List Redirect × List Lexeme
  | 0, ls => ([], ls)
  | fuel + 1, ls =>
    match redirect? ls with
    | some (r, rest) => let more := redirects fuel rest; (r :: more.1, more.2)
    | none => ([], ls)

/-- A compound command with the redirections behind it. -/
def redirected (read : Command × List Lexeme) : Command × List Lexeme :=
  match redirects read.2.length read.2 with
  | ([], rest) => (read.1, rest)
  | (rs, rest) => (.group read.1 rs, rest)

/-- A word that assigns to a variable. -/
def assignment? : Word → Option (String × Word)
  | .plain chars false :: rest =>
    match chars.takeWhile isNameChar, chars.dropWhile isNameChar with
    | c :: name, '=' :: value =>
      if isNameStart c then some (String.ofList (c :: name), .plain value false :: rest) else none
    | _, _ => none
  | _ => none

/-- The rest of a simple command. -/
def simple : Nat → List (String × Word) → List Word → List Redirect → List Lexeme →
    Option (Command × List Lexeme)
  | 0, _, _, _, _ => none
  | fuel + 1, assigned, words, taken, ls =>
    match redirect? ls with
    | some (r, rest) => simple fuel assigned words (taken ++ [r]) rest
    | none =>
      match ls with
      | .word w :: rest =>
        match if words.isEmpty then assignment? w else none with
        | some a => simple fuel (assigned ++ [a]) words taken rest
        | none => simple fuel assigned (words ++ [w]) taken rest
      | _ =>
        if assigned.isEmpty && words.isEmpty && taken.isEmpty then none
        else some (.simple assigned words taken, ls)

/-- The words up to the next separator. -/
def wordsUntilSeparator : List Lexeme → List Word × List Lexeme
  | .word w :: rest => let more := wordsUntilSeparator rest; (w :: more.1, more.2)
  | ls => ([], ls)

/-- Takes a reserved word. -/
def expectWord (s : String) : List Lexeme → Option (List Lexeme)
  | l :: rest => if l.bare? = some s then some rest else none
  | [] => none

mutual

/-- A list of commands up to a word or bracket that ends it. -/
def commands : Nat → List Lexeme → Option (Command × List Lexeme)
  | 0, _ => none
  | fuel + 1, ls =>
    let ls := skipNewlines ls
    if atListEnd ls then some (.nothing, ls)
    else do
      let (first, rest) ← andOr fuel ls
      match rest with
      | .operator op :: after =>
        if op = ";" ∨ op = "&" ∨ op = newlineOperator then
          let first := if op = "&" then .background first else first
          let (second, rest) ← commands fuel after
          some (match second with
            | .nothing => first
            | _ => .sequence first second, rest)
        else some (first, rest)
      | _ => if atListEnd rest then some (first, rest) else none

/-- Pipelines joined by `&&` and `||`, grouped to the left. -/
def andOr : Nat → List Lexeme → Option (Command × List Lexeme)
  | 0, _ => none
  | fuel + 1, ls => do
    let (first, rest) ← pipeline fuel ls
    andOrRest fuel first rest

/-- The joined pipelines behind the first. -/
def andOrRest : Nat → Command → List Lexeme → Option (Command × List Lexeme)
  | 0, _, _ => none
  | fuel + 1, left, ls =>
    match ls with
    | .operator "&&" :: rest => do
      let (right, rest) ← pipeline fuel (skipNewlines rest)
      andOrRest fuel (.both left right) rest
    | .operator "||" :: rest => do
      let (right, rest) ← pipeline fuel (skipNewlines rest)
      andOrRest fuel (.either left right) rest
    | _ => some (left, ls)

/-- Commands joined by pipes. -/
def pipeline : Nat → List Lexeme → Option (Command × List Lexeme)
  | 0, _ => none
  | fuel + 1, ls =>
    match expectWord "!" ls with
    | some rest => (pipeline fuel rest).map fun (c, r) => (.negated c, r)
    | none => do
      let (first, rest) ← command fuel ls
      match rest with
      | .operator "|" :: rest =>
        let (second, rest) ← pipeline fuel (skipNewlines rest)
        some (.pipe first second, rest)
      | _ => some (first, rest)

/-- One command. -/
def command : Nat → List Lexeme → Option (Command × List Lexeme)
  | 0, _ => none
  | fuel + 1, ls =>
    match ls with
    | [] => none
    | .operator "(" :: rest => do
      let (c, rest) ← commands fuel rest
      match rest with
      | .operator ")" :: rest =>
        let (rs, rest) := redirects fuel rest
        some (.subshell c rs, rest)
      | _ => none
    | l :: rest =>
      match l.bare? with
      | some "\x7b" => do
        let (c, rest) ← commands fuel rest
        let rest ← expectWord "\x7d" rest
        let (rs, rest) := redirects fuel rest
        some (.group c rs, rest)
      | some "if" => (conditional fuel rest).map redirected
      | some "while" => (loopCommand fuel false rest).map redirected
      | some "until" => (loopCommand fuel true rest).map redirected
      | some "for" => (forCommand fuel rest).map redirected
      | _ => simple (ls.length + 1) [] [] [] ls

/-- A conditional behind `if` or `elif`. -/
def conditional : Nat → List Lexeme → Option (Command × List Lexeme)
  | 0, _ => none
  | fuel + 1, ls => do
    let (test, rest) ← commands fuel ls
    let (yes, rest) ← commands fuel (← expectWord "then" rest)
    match rest with
    | l :: rest =>
      match l.bare? with
      | some "fi" => some (.cond test yes .nothing, rest)
      | some "else" =>
        let (no, rest) ← commands fuel rest
        some (.cond test yes no, ← expectWord "fi" rest)
      | some "elif" =>
        let (no, rest) ← conditional fuel rest
        some (.cond test yes no, rest)
      | _ => none
    | [] => none

/-- A loop behind `while` or `until`. -/
def loopCommand : Nat → Bool → List Lexeme → Option (Command × List Lexeme)
  | 0, _, _ => none
  | fuel + 1, negated, ls => do
    let (test, rest) ← commands fuel ls
    let (body, rest) ← commands fuel (← expectWord "do" rest)
    some (.loop negated test body, ← expectWord "done" rest)

/-- A loop behind `for`. -/
def forCommand : Nat → List Lexeme → Option (Command × List Lexeme)
  | 0, _ => none
  | fuel + 1, ls =>
    match ls with
    | l :: rest => do
      let name ← l.bare?
      let (words, rest) := wordsUntilSeparator (← expectWord "in" (skipSeparators rest))
      let (body, rest) ← commands fuel (← expectWord "do" (skipSeparators rest))
      some (.forEach name words body, ← expectWord "done" rest)
    | [] => none

end

/-- Why a text is no command. -/
inductive SyntaxError where
  | unterminated
  | unexpectedEnd
  | unexpected (text : String)

/-- The text of a syntax error. -/
def SyntaxError.message : SyntaxError → String
  | .unterminated => "Syntax error: Unterminated quoted string"
  | .unexpectedEnd => "Syntax error: end of file unexpected"
  | .unexpected text => "Syntax error: \"" ++ text ++ "\" unexpected"

/-- The written form of a lexeme, as far as errors name it. -/
def Lexeme.written : Lexeme → String
  | .operator text => text
  | .word parts => String.ofList (parts.flatMap fun
    | .plain chars _ => chars
    | _ => [])

/-- The command that a text stands for. -/
def parse (source : List Char) : Except SyntaxError Command :=
  match lexemes (source.length + 1) source with
  | none => .error .unterminated
  | some ls =>
    match commands (8 * ls.length + 8) ls, ls with
    | some (c, []), _ => .ok c
    | some (_, l :: _), _ => .error (.unexpected l.written)
    | none, .operator op :: _ => .error (.unexpected op)
    | none, _ => .error .unexpectedEnd

end Pipeline.Shell
