import Pipeline.Expr.Basic
import Pipeline.Expr.Lexer

/-!
# Expressions — reading tokens

The parser is a machine that takes one token at a time.  Its stack holds what is still open: signs
and left operands that wait for an operand, and brackets that wait for their close.  What comes
next decides how far operands are closed: an operator closes the operators that bind at least as
tightly, a bracket or the end closes them all.  The power operator alone groups to the right.

Operators bind, from loose to tight: `||`, `&&`, equality, order, sums, products, `**`, signs.

Since a token is refused only when no expression goes on with it, the first refused token is the
one that an error reports.
-/

namespace Pipeline

/-- An operator between two operands. -/
inductive Operator where
  | either
  | both
  | binary (op : BinaryOp)
  deriving DecidableEq, Repr

namespace Operator

/-- How tightly an operator binds. -/
def level : Operator → Nat
  | .either => 1
  | .both => 2
  | .binary .equal | .binary .notEqual => 3
  | .binary .atMost | .binary .atLeast | .binary .less | .binary .greater => 4
  | .binary .plus | .binary .minus => 5
  | .binary .times | .binary .divided | .binary .modulo => 6
  | .binary .power => 7

/-- The least level of the operators that are closed when this operator comes. -/
def closes : Operator → Nat
  | .binary .power => 8
  | op => op.level

/-- The tree of two operands. -/
def apply : Operator → Expr → Expr → Expr
  | .either => .either
  | .both => .both
  | .binary op => .binary op

/-- The operator that a symbol stands for between two operands. -/
def ofSymbol? : Symbol → Option Operator
  | .either => some .either
  | .both => some .both
  | .equal => some (.binary .equal)
  | .notEqual => some (.binary .notEqual)
  | .atMost => some (.binary .atMost)
  | .atLeast => some (.binary .atLeast)
  | .less => some (.binary .less)
  | .greater => some (.binary .greater)
  | .plus => some (.binary .plus)
  | .minus => some (.binary .minus)
  | .times => some (.binary .times)
  | .divided => some (.binary .divided)
  | .modulo => some (.binary .modulo)
  | .power => some (.binary .power)
  | _ => none

end Operator

/-- A sign before an operand. -/
inductive Sign where
  | minus
  | plus
  | bang
  deriving DecidableEq, Repr

namespace Sign

/-- The tree of a signed operand. -/
def apply : Sign → Expr → Expr
  | .minus => .negate
  | .plus => id
  | .bang => .not

/-- The sign that a symbol stands for before an operand. -/
def ofSymbol? : Symbol → Option Sign
  | .minus => some .minus
  | .plus => some .plus
  | .bang => some .bang
  | _ => none

end Sign

namespace Parser

/-- Something open: it waits for an operand, or for its closing bracket. -/
inductive Frame where
  | signed (s : Sign)
  | operand (left : Expr) (op : Operator)
  | paren
  | list (members : List Expr)
  | index (target : Expr)
  | args (target : Expr) (method : String) (done : List Expr)
  | field (done : List (String × Expr)) (key : String)

/-- What may come next. -/
inductive Expect where
  | operand
  | operandOrClose
  | keyOrClose (fields : List (String × Expr))
  | colon (fields : List (String × Expr)) (key : String)
  | memberName (target : Expr)
  | callOrMore (target : Expr) (method : String)
  | more (e : Expr)

/-- The machine between two tokens, the innermost frame first. -/
structure State where
  stack : List Frame
  expect : Expect

/-- Before the first token. -/
def State.start : State := ⟨[], .operand⟩

/-- Gives a complete operand to the signs and operators on top of the stack that bind at least as
tightly as `level`. -/
def reduce (level : Nat) : List Frame → Expr → List Frame × Expr
  | .signed s :: stack, e => reduce level stack (s.apply e)
  | .operand left op :: stack, e =>
    if level ≤ op.level then reduce level stack (op.apply left e)
    else (.operand left op :: stack, e)
  | stack, e => (stack, e)

/-- A name where an operand stands: three names are literals. -/
def atom (s : String) : Expr :=
  if s = "true" then .literal (.bool true)
  else if s = "false" then .literal (.bool false)
  else if s = "null" then .literal .null
  else .name s

/-- The start of an operand. -/
def operandStep (stack : List Frame) : Token → Option State
  | .number whole fraction => some ⟨stack, .more (.number (Token.numberValue whole fraction))⟩
  | .text _ body => some ⟨stack, .more (.literal (.text (String.ofList body)))⟩
  | .name chars => some ⟨stack, .more (atom (String.ofList chars))⟩
  | .symbol .openBracket => some ⟨.list [] :: stack, .operandOrClose⟩
  | .symbol .openBrace => some ⟨stack, .keyOrClose []⟩
  | .symbol .openParen => some ⟨.paren :: stack, .operand⟩
  | .symbol s => (Sign.ofSymbol? s).map fun sign => ⟨.signed sign :: stack, .operand⟩

/-- The close of a list without a further member. -/
def emptyClose : List Frame → Symbol → Option State
  | .list members :: stack, .closeBracket => some ⟨stack, .more (.list members)⟩
  | .args target method done :: stack, .closeParen => some ⟨stack, .more (.call target method done)⟩
  | _, _ => none

/-- A comma or a closing bracket behind the operand `e` of the innermost bracket. -/
def closeStep : List Frame → Expr → Symbol → Option State
  | .paren :: stack, e, .closeParen => some ⟨stack, .more e⟩
  | .list members :: stack, e, .comma => some ⟨.list (members ++ [e]) :: stack, .operandOrClose⟩
  | .list members :: stack, e, .closeBracket => some ⟨stack, .more (.list (members ++ [e]))⟩
  | .index target :: stack, e, .closeBracket => some ⟨stack, .more (.index target e)⟩
  | .args target method done :: stack, e, .comma =>
    some ⟨.args target method (done ++ [e]) :: stack, .operandOrClose⟩
  | .args target method done :: stack, e, .closeParen =>
    some ⟨stack, .more (.call target method (done ++ [e]))⟩
  | .field done key :: stack, e, .comma => some ⟨stack, .keyOrClose (done ++ [(key, e)])⟩
  | .field done key :: stack, e, .closeBrace => some ⟨stack, .more (.object (done ++ [(key, e)]))⟩
  | _, _, _ => none

/-- A symbol behind a complete operand: a suffix, an operator, a comma or a closing bracket. -/
def moreStep (stack : List Frame) (e : Expr) : Symbol → Option State
  | .dot => some ⟨stack, .memberName e⟩
  | .openBracket => some ⟨.index e :: stack, .operand⟩
  | s =>
    match Operator.ofSymbol? s with
    | some op =>
      let (rest, left) := reduce op.closes stack e
      some ⟨.operand left op :: rest, .operand⟩
    | none =>
      let (rest, closed) := reduce 0 stack e
      closeStep rest closed s

/-- Takes one token; `none` if no expression goes on with it. -/
def State.step : State → Token → Option State
  | ⟨stack, .operand⟩, t => operandStep stack t
  | ⟨stack, .operandOrClose⟩, t =>
    match t with
    | .symbol s =>
      match emptyClose stack s with
      | some next => some next
      | none => operandStep stack t
    | _ => operandStep stack t
  | ⟨stack, .keyOrClose fields⟩, .name chars => some ⟨stack, .colon fields (String.ofList chars)⟩
  | ⟨stack, .keyOrClose fields⟩, .text _ body => some ⟨stack, .colon fields (String.ofList body)⟩
  | ⟨stack, .keyOrClose fields⟩, .symbol .closeBrace => some ⟨stack, .more (.object fields)⟩
  | ⟨stack, .colon fields key⟩, .symbol .colon => some ⟨.field fields key :: stack, .operand⟩
  | ⟨stack, .memberName target⟩, .name chars =>
    some ⟨stack, .callOrMore target (String.ofList chars)⟩
  | ⟨stack, .callOrMore target method⟩, .symbol .openParen =>
    some ⟨.args target method [] :: stack, .operandOrClose⟩
  | ⟨stack, .callOrMore target method⟩, .symbol s => moreStep stack (.member target method) s
  | ⟨stack, .more e⟩, .symbol s => moreStep stack e s
  | _, _ => none

/-- Closes all operators around the last operand; no bracket may remain. -/
def closeAll (stack : List Frame) (e : Expr) : Option Expr :=
  match reduce 0 stack e with
  | ([], whole) => some whole
  | _ => none

/-- The expression that has been read, if nothing is open. -/
def State.result? : State → Option Expr
  | ⟨stack, .more e⟩ => closeAll stack e
  | ⟨stack, .callOrMore target method⟩ => closeAll stack (.member target method)
  | _ => none

/-- Takes tokens until one is refused. -/
def State.run : State → List Token → Except Found State
  | s, [] => .ok s
  | s, t :: ts =>
    match s.step t with
    | some next => next.run ts
    | none => .error (.token t)

/-- The expression that a list of tokens stands for. -/
def parse (ts : List Token) : Except Found Expr :=
  match State.start.run ts with
  | .ok s =>
    match s.result? with
    | some e => .ok e
    | none => .error .endOfInput
  | .error found => .error found

end Parser

/-- The expression that a source stands for. -/
def Expr.ofSource (source : String) : Except SyntaxError Expr :=
  match Token.lex source.toList with
  | .error found => .error (.unexpected found)
  | .ok [] => .error .empty
  | .ok ts => (Parser.parse ts).mapError .unexpected

end Pipeline
