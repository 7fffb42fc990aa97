/-!
# Shell — words and commands

The command language of shell stages.  A word is a sequence of parts, each quoted or not; commands
are simple commands with assignments and redirections, put together by lists, pipelines, groups
and loops.
-/

namespace Pipeline.Shell

/-- A piece of a word.  Quoted pieces are never split into several words. -/
inductive Part where
  | plain (chars : List Char) (quoted : Bool)
  | parameter (name : String) (quoted : Bool)
  | default (name : String) (fallback : List Char) (quoted : Bool)
  | arithmetic (source : List Char) (quoted : Bool)
  | command (source : List Char) (quoted : Bool)
  deriving Repr, Inhabited

/-- The part takes the output of a command. -/
def Part.isCommand : Part → Bool
  | .command _ _ => true
  | _ => false

/-- A word before expansion. -/
abbrev Word := List Part

/-- Where a redirection leads. -/
inductive Redirect where
  | duplicate (target source : Nat)
  | output (descriptor : Nat) (file : Word)
  | input (file : Word)
  deriving Repr, Inhabited

/-- A command. -/
inductive Command where
  | simple (assignments : List (String × Word)) (words : List Word) (redirects : List Redirect)
  | sequence (first second : Command)
  | both (first second : Command)
  | either (first second : Command)
  | negated (c : Command)
  | background (c : Command)
  | pipe (first second : Command)
  | subshell (c : Command) (redirects : List Redirect)
  | group (c : Command) (redirects : List Redirect)
  | cond (test yes no : Command)
  | forEach (name : String) (words : List Word) (body : Command)
  | loop (negated : Bool) (test body : Command)
  | nothing
  deriving Repr, Inhabited

/-- A token of the command language. -/
inductive Lexeme where
  | word (parts : Word)
  | operator (text : String)
  deriving Repr, Inhabited

/-- A word without quotes or expansions, as reserved words are. -/
def Lexeme.bare? : Lexeme → Option String
  | .word [.plain chars false] => some (String.ofList chars)
  | _ => none

end Pipeline.Shell
