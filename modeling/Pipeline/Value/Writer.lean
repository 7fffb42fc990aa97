import Pipeline.Decimal.Layout
import Pipeline.Value.Basic

/-!
# Values — compact JSON text

The one written form of a value: no blanks, fields in their order, and in strings only the quote,
the backslash and the control characters escaped.
-/

namespace Pipeline

/-- Binary numbers in JSON text are positional from `1e-5` up to below `1e16`, keep a decimal
there, and are scientific elsewhere. -/
def Decimal.Layout.json : Layout := ⟨some (-5), some 15, true, .even⟩

namespace Number

/-- The digits of a whole number, with its sign. -/
def wholeChars (i : Int) : List Char :=
  if i < 0 then '-' :: Decimal.wholeDigits i.natAbs else Decimal.wholeDigits i.natAbs

/-- The written form of a number. -/
def chars : Number → List Char
  | .whole i => wholeChars i
  | .binary x => Decimal.Layout.json.write x

end Number

namespace Value

/-- The two hexadecimal digits of a control character. -/
def controlDigits (n : Nat) : List Char :=
  [Nat.digitChar (n / 16), Nat.digitChar (n % 16)]

/-- One character inside a quoted string. -/
def escapeChar (c : Char) : List Char :=
  if c = '"' then ['\\', '"']
  else if c = '\\' then ['\\', '\\']
  else if c.toNat = 0x8 then ['\\', 'b']
  else if c = '\t' then ['\\', 't']
  else if c = '\n' then ['\\', 'n']
  else if c.toNat = 0xC then ['\\', 'f']
  else if c = '\r' then ['\\', 'r']
  else if c.toNat < 0x20 then '\\' :: 'u' :: '0' :: '0' :: controlDigits c.toNat
  else [c]

/-- A quoted string. -/
def quote (s : String) : List Char :=
  '"' :: s.toList.flatMap escapeChar ++ ['"']

mutual

/-- The written form of a value. -/
def chars : Value → List Char
  | .null => ['n', 'u', 'l', 'l']
  | .bool true => ['t', 'r', 'u', 'e']
  | .bool false => ['f', 'a', 'l', 's', 'e']
  | .number n => n.chars
  | .text s => quote s
  | .list [] => ['[', ']']
  | .list (x :: xs) => '[' :: chars x ++ memberChars xs ++ [']']
  | .object [] => ['{', '}']
  | .object ((key, v) :: fs) => '{' :: quote key ++ ':' :: chars v ++ fieldChars fs ++ ['}']

/-- The members after the first, each behind a comma. -/
def memberChars : List Value → List Char
  | [] => []
  | x :: xs => ',' :: chars x ++ memberChars xs

/-- The fields after the first, each behind a comma. -/
def fieldChars : List (String × Value) → List Char
  | [] => []
  | (key, v) :: fs => ',' :: quote key ++ ':' :: chars v ++ fieldChars fs

end

/-- The written form of a value, as a string. -/
def json (v : Value) : String := String.ofList v.chars

/-- The text of a value in output: a string as it is, anything else written. -/
def display : Value → String
  | .text s => s
  | v => v.json

end Value

end Pipeline
