/-!
# Shell — arithmetic

Whole-number arithmetic inside `$(( ))`: the usual operators with their usual precedence on 64-bit
numbers, division towards zero.  Names stand for the numbers that variables hold.
-/

namespace Pipeline.Shell

/-- The binary operators by level, loosest first. -/
def arithmeticLevels : List (List String) :=
  [["||"], ["&&"], ["==", "!="], ["<=", ">=", "<", ">"], ["+", "-"], ["*", "/", "%"]]

/-- A truth value as a number. -/
def truth (b : Bool) : Int := if b then 1 else 0

/-- Why an arithmetic text has no value. -/
inductive ArithmeticError where
  | malformed
  | divisionByZero

/-- The text of an arithmetic error. -/
def ArithmeticError.message : ArithmeticError → String
  | .malformed => "expecting primary"
  | .divisionByZero => "division by zero"

/-- The value of an operator. -/
def arithmeticOp (op : String) (a b : Int) : Except ArithmeticError Int :=
  match op with
  | "||" => .ok (truth (a ≠ 0 || b ≠ 0))
  | "&&" => .ok (truth (a ≠ 0 && b ≠ 0))
  | "==" => .ok (truth (a = b))
  | "!=" => .ok (truth (a ≠ b))
  | "<=" => .ok (truth (a ≤ b))
  | ">=" => .ok (truth (a ≥ b))
  | "<" => .ok (truth (a < b))
  | ">" => .ok (truth (a > b))
  | "+" => .ok ((a + b).bmod (Nat.pow 2 64))
  | "-" => .ok ((a - b).bmod (Nat.pow 2 64))
  | "*" => .ok ((a * b).bmod (Nat.pow 2 64))
  | "/" => if b = 0 then .error .divisionByZero else .ok (a.tdiv b)
  | "%" => if b = 0 then .error .divisionByZero else .ok (a.tmod b)
  | _ => .error .malformed

/-- Blanks dropped from the front. -/
def skipSpace (cs : List Char) : List Char := cs.dropWhile fun c => c = ' ' || c = '\t' || c = '\n'

/-- The operator of a list that a text starts with, and the rest. -/
def leadingOp? (ops : List String) (cs : List Char) : Option (String × List Char) :=
  ops.findSome? fun op =>
    if op.toList.isPrefixOf cs then some (op, cs.drop op.toList.length) else none

mutual

/-- A value at a level of operators. -/
def arithmeticAt (valueOf : String → Int) :
    Nat → List (List String) → List Char → Except ArithmeticError (Int × List Char)
  | 0, _, _ => .error .malformed
  | fuel + 1, [], cs => operand valueOf fuel (skipSpace cs)
  | fuel + 1, ops :: tighter, cs => do
    let (a, rest) ← arithmeticAt valueOf fuel tighter cs
    arithmeticRest valueOf fuel ops tighter a rest

/-- The operators of one level behind a value. -/
def arithmeticRest (valueOf : String → Int) :
    Nat → List String → List (List String) → Int → List Char →
    Except ArithmeticError (Int × List Char)
  | 0, _, _, _, _ => .error .malformed
  | fuel + 1, ops, tighter, a, cs =>
    match leadingOp? ops (skipSpace cs) with
    | some (op, rest) => do
      let (b, rest) ← arithmeticAt valueOf fuel tighter rest
      arithmeticRest valueOf fuel ops tighter (← arithmeticOp op a b) rest
    | none => .ok (a, skipSpace cs)

/-- A signed number, name or parenthesis. -/
def operand (valueOf : String → Int) : Nat → List Char → Except ArithmeticError (Int × List Char)
  | 0, _ => .error .malformed
  | fuel + 1, cs =>
    match cs with
    | '(' :: rest => do
      let (a, rest) ← arithmeticAt valueOf fuel arithmeticLevels rest
      match skipSpace rest with
      | ')' :: rest => .ok (a, rest)
      | _ => .error .malformed
    | '-' :: rest => (operand valueOf fuel (skipSpace rest)).map fun (a, r) => (-a, r)
    | '+' :: rest => operand valueOf fuel (skipSpace rest)
    | '!' :: rest => (operand valueOf fuel (skipSpace rest)).map fun (a, r) => (truth (a = 0), r)
    | c :: _ =>
      let part := fun c : Char => c.isAlphanum || c = '_'
      let text := String.ofList (cs.takeWhile part)
      if c.isDigit then
        match text.toNat? with
        | some n => .ok (n, cs.dropWhile part)
        | none => .error .malformed
      else if part c then .ok (valueOf text, cs.dropWhile part)
      else .error .malformed
    | [] => .error .malformed

end

/-- The value of an arithmetic text. -/
def arithmetic (valueOf : String → Int) (cs : List Char) : Except ArithmeticError Int := do
  let (a, rest) ← arithmeticAt valueOf (16 * cs.length + 16) arithmeticLevels cs
  if (skipSpace rest).isEmpty then return a else .error .malformed

end Pipeline.Shell
