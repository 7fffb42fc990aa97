import Pipeline.Bindings
import Pipeline.Expr.Parser
import Pipeline.Text.Case
import Pipeline.Text.Split

/-!
# Expressions — evaluation

The value of an expression, given bindings and an environment.  A failed item may be passed on by
a name, tested by `!`, `&&` and `||`, and read field by field; every other use of it is an error.
Numeric results are normalised: a whole number of at most fifty-three bits becomes a whole number.
-/

namespace Pipeline

/-- Why an evaluation has no result. -/
inductive EvalError where
  | undefined (name : String)
  | failedOperand (message : String)
  | notFinite (x : Binary64)
  | notNumeral (s : String)
  | notNumber (v : Value)
  | divisionByZero
  | badIndex (v : Value)
  | missingArgument (method : String)
  | noMethod (method : String) (receiver : Value)

/-- The text of an evaluation error. -/
def EvalError.message : EvalError → String
  | .undefined name => name ++ " is not defined"
  | .failedOperand message => "cannot use an error value here: " ++ message
  | .notFinite x =>
    "numeric result " ++ String.ofList (Decimal.Layout.message.write x) ++ " is not finite"
  | .notNumeral s => "'" ++ s ++ "' is not a number"
  | .notNumber v => v.json ++ " is not a number"
  | .divisionByZero => "division by zero"
  | .badIndex v => "cannot index with " ++ v.json
  | .missingArgument method => method ++ " expects an argument"
  | .noMethod method receiver => method ++ " is not a function on " ++ receiver.json

namespace Value

/-! ### Numbers -/

/-- The largest magnitude at which every whole number is exact. -/
def exactMax : Nat := Nat.pow 2 53 - 1

/-- A numeric result as a value. -/
def ofBinary (x : Binary64) : Except EvalError Value :=
  if x.isFinite then
    match x.toInt? with
    | some i => if i.natAbs ≤ exactMax then .ok (.whole i) else .ok (.number (.binary x))
    | none => .ok (.number (.binary x))
  else .error (.notFinite x)

/-- The number that a value stands for in arithmetic. -/
def toBinary : Value → Except EvalError Binary64
  | .number n => .ok n.toBinary
  | .bool b => .ok (.ofInt (if b then 1 else 0))
  | .null => .ok (.ofInt 0)
  | .text s =>
    match Text.trimBlanks s.toList with
    | [] => .ok (.ofInt 0)
    | cs =>
      match Decimal.readNumeral? cs with
      | some x => .ok x
      | none => .error (.notNumeral s)
  | v => .error (.notNumber v)

/-- The value is a text. -/
def isText : Value → Bool
  | .text _ => true
  | _ => false

/-- Equality in expressions: two numbers by their value, all else as data. -/
def equal : Value → Value → Bool
  | .number a, .number b => a.toBinary.same b.toBinary
  | v, w => v.same w

/-- The order of two values: texts by code point, all else as numbers, where there is one. -/
def order? : Value → Value → Option Ordering
  | .text a, .text b => some (compareOfLessAndEq a.toList b.toList)
  | v, w =>
    match v.toBinary, w.toBinary with
    | .ok x, .ok y => x.compare? y
    | _, _ => none

/-- Applies a numeric operation to two values. -/
def arithmetic (f : Binary64 → Binary64 → Binary64) (v w : Value) : Except EvalError Value := do
  let x ← v.toBinary
  let y ← w.toBinary
  ofBinary (f x y)

/-- Applies a division to two values; the divisor is looked at first. -/
def division (f : Binary64 → Binary64 → Binary64) (v w : Value) : Except EvalError Value := do
  let y ← w.toBinary
  if y.isZero then .error .divisionByZero
  else
    let x ← v.toBinary
    ofBinary (f x y)

/-- The order of two values is there and satisfies the test. -/
def ordered (test : Ordering → Bool) (v w : Value) : Value :=
  .bool ((order? v w).any test)

/-- The value of an operator. -/
def binary : BinaryOp → Value → Value → Except EvalError Value
  | .plus, v, w =>
    if v.isText || w.isText then .ok (.text (v.display ++ w.display)) else arithmetic .add v w
  | .minus, v, w => arithmetic .sub v w
  | .times, v, w => arithmetic .mul v w
  | .divided, v, w => division .div v w
  | .modulo, v, w => division .rem v w
  | .power, v, w => arithmetic .pow v w
  | .equal, v, w => .ok (.bool (v.equal w))
  | .notEqual, v, w => .ok (.bool (!v.equal w))
  | .less, v, w => .ok (ordered Ordering.isLT v w)
  | .atMost, v, w => .ok (ordered Ordering.isLE v w)
  | .greater, v, w => .ok (ordered Ordering.isGT v w)
  | .atLeast, v, w => .ok (ordered Ordering.isGE v w)

/-! ### Members -/

/-- A text of one character. -/
def ofChar (c : Char) : Value := .text (String.ofList [c])

/-- The member at a position: of a list, or a character of a text. -/
def element? : Value → Nat → Option Value
  | .list members, i => members[i]?
  | .text s, i => (s.toList[i]?).map ofChar
  | _, _ => none

/-- The member under a key, null where there is none.  Lists and texts know their length, and take
a position in digits. -/
def member (v : Value) (key : String) : Value :=
  match v with
  | .object fields => (field? fields key).getD .null
  | .list members =>
    if key = "length" then .whole members.length
    else ((Decimal.readWord? key).bind (element? v)).getD .null
  | .text s =>
    if key = "length" then .whole s.toList.length
    else ((Decimal.readWord? key).bind (element? v)).getD .null
  | _ => .null

/-- The member at an index: a key, or a position from zero on. -/
def atIndex (v : Value) : Value → Except EvalError Value
  | .text key => .ok (v.member key)
  | .number (.whole (.ofNat i)) => .ok ((v.element? i).getD .null)
  | .number _ => .ok .null
  | index => .error (.badIndex index)

/-! ### Methods -/

/-- The first argument of a method, as text. -/
def textArgument (method : String) : List Value → Except EvalError String
  | v :: _ => .ok v.display
  | [] => .error (.missingArgument method)

/-- The parts of a text as values. -/
def ofParts (parts : List (List Char)) : Value :=
  .list (parts.map fun part => .text (String.ofList part))

/-- The value of a method call. -/
def call (receiver : Value) (method : String) (args : List Value) : Except EvalError Value :=
  match receiver, method with
  | .text s, "split" => do
    let sep ← textArgument method args
    return ofParts (Text.split sep.toList s.toList)
  | .text s, "toUpperCase" => .ok (.text (Text.upper s))
  | .text s, "toLowerCase" => .ok (.text (Text.lower s))
  | .text s, "trim" => .ok (.text (Text.trim s))
  | .text s, "includes" => do
    let needle ← textArgument method args
    return .bool (Text.contains needle.toList s.toList)
  | .list members, "includes" =>
    .ok (.bool (members.any (·.equal (args.head?.getD .null))))
  | .list members, "join" =>
    let sep := (args.head?.map display).getD ","
    .ok (.text (String.ofList (Text.join sep.toList (members.map (·.display.toList)))))
  | _, _ => .error (.noMethod method receiver)

end Value

namespace Expr

/-- A result that has to be a value. -/
def asValue : Item → Except EvalError Value
  | .value v => .ok v
  | .failure e => .error (.failedOperand e.message)

/-- The binding that a name refers to. -/
def bound? (b : Bindings) (name : String) : Option Item :=
  if name = "x" ∨ name = "value" then b.value <|> b.error
  else if name = "i" ∨ name = "index" then b.index
  else if name = "acc" ∨ name = "accumulator" then b.accumulator
  else if name = "e" ∨ name = "error" then b.error
  else none

/-- The item that a name refers to: a binding, or else an alias. -/
def lookup (b : Bindings) (env : Environment) (name : String) : Except EvalError Item :=
  match bound? b name with
  | some item => .ok item
  | none =>
    match env.get? name with
    | some v => .ok (.value v)
    | none => .error (.undefined name)

mutual

/-- The item that an expression stands for. -/
def eval (b : Bindings) (env : Environment) : Expr → Except EvalError Item
  | .number x => do return .value (← Value.ofBinary x)
  | .literal v => .ok (.value v)
  | .name s => lookup b env s
  | .list members => do return .value (.list (← evalAll b env members))
  | .object fields => do return .value (.object (← evalFields b env [] fields))
  | .negate e => do
    let x ← (← asValue (← eval b env e)).toBinary
    return .value (← Value.ofBinary x.neg)
  | .not e => do return .value (.bool !(← eval b env e).isTruthy)
  | .binary op left right => do
    let v ← asValue (← eval b env left)
    let w ← asValue (← eval b env right)
    return .value (← Value.binary op v w)
  | .both left right => do
    let item ← eval b env left
    if item.isTruthy then eval b env right else return item
  | .either left right => do
    let item ← eval b env left
    if item.isTruthy then return item else eval b env right
  | .member target key => do return .value ((← eval b env target).toValue.member key)
  | .index target position => do
    let v := (← eval b env target).toValue
    let i ← asValue (← eval b env position)
    return .value (← v.atIndex i)
  | .call target method args => do
    let receiver ← asValue (← eval b env target)
    let values ← evalAll b env args
    return .value (← receiver.call method values)

/-- The values of a list of expressions. -/
def evalAll (b : Bindings) (env : Environment) : List Expr → Except EvalError (List Value)
  | [] => .ok []
  | e :: es => do
    let v ← asValue (← eval b env e)
    let vs ← evalAll b env es
    return v :: vs

/-- The fields of an object, set one after the other. -/
def evalFields (b : Bindings) (env : Environment) (done : List (String × Value)) :
    List (String × Expr) → Except EvalError (List (String × Value))
  | [] => .ok done
  | (key, e) :: fields => do
    let v ← asValue (← eval b env e)
    evalFields b env (Value.setField key v done) fields

end

end Expr

/-- Why a source has no result: it is no expression, or its evaluation fails. -/
inductive SourceError where
  | malformed (e : SyntaxError)
  | evaluation (e : EvalError)

/-- The text of a source error. -/
def SourceError.message : SourceError → String
  | .malformed e => e.message
  | .evaluation e => e.message

/-- The item that a source stands for. -/
def evalSource (source : String) (b : Bindings) (env : Environment) : Except SourceError Item :=
  match Expr.ofSource source with
  | .error e => .error (.malformed e)
  | .ok e => (e.eval b env).mapError .evaluation

end Pipeline
