import Pipeline.Decimal.Layout
import Pipeline.Decimal.Numeral

/-!
# Expressions — tokens

The tokens of the expression language.  A token keeps its spelling: a number its digits, a string
its quotes.  `spelling` writes a token as it stands in a source; `shown` is how messages name it.
-/

namespace Pipeline

/-- Operators and punctuation. -/
inductive Symbol where
  | power | equal | notEqual | atMost | atLeast | both | either
  | plus | minus | times | divided | modulo | less | greater | bang
  | openParen | closeParen | openBracket | closeBracket | openBrace | closeBrace
  | comma | dot | colon
  deriving DecidableEq, Repr

namespace Symbol

/-- How a symbol is written. -/
def chars : Symbol → List Char
  | power => ['*', '*']
  | equal => ['=', '=']
  | notEqual => ['!', '=']
  | atMost => ['<', '=']
  | atLeast => ['>', '=']
  | both => ['&', '&']
  | either => ['|', '|']
  | plus => ['+']
  | minus => ['-']
  | times => ['*']
  | divided => ['/']
  | modulo => ['%']
  | less => ['<']
  | greater => ['>']
  | bang => ['!']
  | openParen => ['(']
  | closeParen => [')']
  | openBracket => ['[']
  | closeBracket => [']']
  | openBrace => ['{']
  | closeBrace => ['}']
  | comma => [',']
  | dot => ['.']
  | colon => [':']

end Symbol

/-- The quote that delimits a string; the string holds no such quote. -/
inductive Quote where
  | single
  | double
  deriving DecidableEq, Repr

/-- The quote character. -/
def Quote.char : Quote → Char
  | .single => '\''
  | .double => '"'

/-- A token. -/
inductive Token where
  | number (whole : List Char) (fraction : List Char)
  | text (quote : Quote) (body : List Char)
  | name (chars : List Char)
  | symbol (s : Symbol)
  deriving DecidableEq, Repr

namespace Token

/-- A token as it stands in a source. -/
def spelling : Token → List Char
  | .number whole fraction => whole ++ if fraction.isEmpty then [] else '.' :: fraction
  | .text quote body => quote.char :: body ++ [quote.char]
  | .name chars => chars
  | .symbol s => s.chars

/-- The number that a numeral denotes. -/
def numberValue (whole fraction : List Char) : Binary64 :=
  .ofDecimal false (Decimal.digitsValue (whole ++ fraction)) (-(fraction.length : Int))

/-- How messages name a token: a number by its value, a string in single quotes. -/
def shown : Token → List Char
  | .number whole fraction => Decimal.Layout.message.write (numberValue whole fraction)
  | .text _ body => '\'' :: body ++ ['\'']
  | .name chars => chars
  | .symbol s => s.chars

end Token

/-- What stood where an expression could not go on. -/
inductive Found where
  | endOfInput
  | char (c : Char)
  | token (t : Token)
  deriving DecidableEq, Repr

/-- Why a source is no expression. -/
inductive SyntaxError where
  | empty
  | unexpected (found : Found)
  deriving DecidableEq, Repr

/-- The text of what was found. -/
def Found.message : Found → String
  | .endOfInput => "found end of input"
  | .char c => "found '" ++ String.ofList [c] ++ "'"
  | .token t => "found '" ++ String.ofList t.shown ++ "'"

/-- The text of a syntax error. -/
def SyntaxError.message : SyntaxError → String
  | .empty => "empty expression"
  | .unexpected found => found.message

end Pipeline
