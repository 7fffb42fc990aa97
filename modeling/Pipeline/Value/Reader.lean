import Pipeline.Decimal.Numeral
import Pipeline.Value.Basic

/-!
# Values — reading JSON

Reading goes in two steps.  The text is cut into lexemes, and a machine with a stack of open lists
and objects reads these one at a time.  At most `nestingLimit` containers may be open at once.

A whole number of the machine range stays whole.  Every other number is rounded in steps: its
digits, as far as they fit a machine word, make a binary64 number, which is then multiplied or
divided by a power of ten.
-/

namespace Pipeline.Value

/-- What JSON text consists of. -/
inductive Lexeme where
  | openList
  | closeList
  | openObject
  | closeObject
  | comma
  | colon
  | scalar (v : Value)

/-- A blank of JSON text. -/
def isJsonBlank (c : Char) : Bool :=
  c = ' ' || c = '\t' || c = '\n' || c = '\r'

/-! ### Numbers -/

/-- A significand that fits a machine word, and the number of digits that did not. -/
structure Significand where
  value : Nat
  dropped : Nat

/-- Takes in one more digit; from the first digit that does not fit on, digits only count. -/
def Significand.push (s : Significand) (d : Char) : Significand :=
  let next := s.value * 10 + (d.toNat - '0'.toNat)
  if s.dropped = 0 && next ≤ Decimal.wordMax then ⟨next, 0⟩ else ⟨s.value, s.dropped + 1⟩

/-- The significand of whole digits. -/
def Significand.ofDigits (ds : List Char) : Significand := ds.foldl .push ⟨0, 0⟩

/-- Fraction digits taken into a significand, with the power of ten they are worth.  A digit that
does not fit ends the fraction. -/
def takeFraction (value : Nat) (power : Int) : List Char → Nat × Int
  | [] => (value, power)
  | d :: ds =>
    let next := value * 10 + (d.toNat - '0'.toNat)
    if next ≤ Decimal.wordMax then takeFraction next (power - 1) ds else (value, power)

/-- The product `x * 10 ^ power` by one rounded multiplication or division for each power of ten
that the format holds; `none` beyond the largest number. -/
def scaleByTen (x : Binary64) (power : Int) : Nat → Option Binary64
  | 0 => some x
  | fuel + 1 =>
    if power.natAbs ≤ 308 then
      let ten := Binary64.ofDecimal false 1 power.natAbs
      if power ≥ 0 then
        let y := x.mul ten
        if y.isFinite then some y else none
      else some (x.div ten)
    else if x.isZero then some x
    else if power ≥ 0 then none
    else scaleByTen (x.div (Binary64.ofDecimal false 1 308)) (power + 308) fuel

/-- The limit of a decimal exponent; one with a larger magnitude decides the number alone. -/
def exponentMax : Nat := Nat.pow 2 31 - 1

/-- A number with a fraction or an exponent, from its parts. -/
def binaryOfParts (negative : Bool) (whole fraction : List Char) (exponent : Int) :
    Option Binary64 :=
  let s := Significand.ofDigits whole
  let (value, power) := takeFraction s.value s.dropped fraction
  let sign := fun x : Binary64 => if negative then x.neg else x
  if exponent.natAbs > exponentMax then
    if value ≠ 0 && exponent > 0 then none else some (Binary64.zero negative)
  else
    -- Each step of 308 brings the number to zero well within a dozen steps.
    (scaleByTen (.ofInt value) (power + exponent) 12).map sign

/-- A whole number, as far as the machine range goes. -/
def ofWholeDigits (negative : Bool) (ds : List Char) : Option Value :=
  let n := Decimal.digitsValue ds
  if n ≤ Decimal.wordMax then
    if !negative then some (.number (.whole n))
    else if n = 0 ∨ n > Nat.pow 2 63 then some (.number (.binary (Binary64.ofInt n).neg))
    else some (.number (.whole (-n)))
  else
    (binaryOfParts negative ds [] 0).map fun x => .number (.binary x)

/-- The exponent of a number, when its mark is there: it needs at least one digit. -/
def lexExponent (cs : List Char) : Option (Option Int × List Char) :=
  match cs with
  | mark :: rest =>
    if mark = 'e' ∨ mark = 'E' then
      let (negative, rest) := Decimal.readSign rest
      let (ds, rest) := Decimal.spanDigits rest
      if ds.isEmpty then none
      else
        let n : Int := Decimal.digitsValue ds
        some (some (if negative then -n else n), rest)
    else some (none, cs)
  | [] => some (none, cs)

/-- The fraction of a number, when its point is there: it needs at least one digit. -/
def lexFraction (cs : List Char) : Option (List Char × List Char) :=
  match cs with
  | '.' :: rest =>
    let (ds, rest) := Decimal.spanDigits rest
    if ds.isEmpty then none else some (ds, rest)
  | _ => some ([], cs)

/-- A number behind its sign: no zero before other digits. -/
def lexUnsigned (negative : Bool) (cs : List Char) : Option (Value × List Char) := do
  let (whole, rest) := Decimal.spanDigits cs
  if whole.isEmpty || (whole.head? == some '0' && whole.length > 1) then none
  else
    let (fraction, rest) ← lexFraction rest
    let (exponent, rest) ← lexExponent rest
    if fraction.isEmpty && exponent.isNone then
      let v ← ofWholeDigits negative whole
      some (v, rest)
    else
      let x ← binaryOfParts negative whole fraction (exponent.getD 0)
      some (.number (.binary x), rest)

/-! ### Strings -/

/-- The value of a hexadecimal digit. -/
def hexValue? (c : Char) : Option Nat :=
  if '0' ≤ c ∧ c ≤ '9' then some (c.toNat - '0'.toNat)
  else if 'a' ≤ c ∧ c ≤ 'f' then some (c.toNat - 'a'.toNat + 10)
  else if 'A' ≤ c ∧ c ≤ 'F' then some (c.toNat - 'A'.toNat + 10)
  else none

/-- The value of hexadecimal digits. -/
def hexValues? (cs : List Char) : Option Nat :=
  cs.foldl (fun n c => do return (← n) * 16 + (← hexValue? c)) (some 0)

/-- The character that a one-letter escape stands for. -/
def simpleEscape? : Char → Option Char
  | '"' => some '"'
  | '\\' => some '\\'
  | '/' => some '/'
  | 'b' => some (Char.ofNat 0x8)
  | 'f' => some (Char.ofNat 0xC)
  | 'n' => some '\n'
  | 'r' => some '\r'
  | 't' => some '\t'
  | _ => none

/-- The body of a string and the text behind its closing quote.  A code above U+FFFF is written as
two escapes; half of such a pair stands for nothing. -/
def lexString : List Char → Option (List Char × List Char)
  | [] => none
  | '"' :: rest => some ([], rest)
  | '\\' :: 'u' :: a :: b :: c :: d :: '\\' :: 'u' :: e :: f :: g :: h :: rest =>
    match hexValues? [a, b, c, d] with
    | none => none
    | some n =>
      if 0xD800 ≤ n ∧ n < 0xDC00 then
        match hexValues? [e, f, g, h] with
        | some m =>
          if 0xDC00 ≤ m ∧ m < 0xE000 then
            (lexString rest).map fun (s, r) =>
              (Char.ofNat (0x10000 + (n - 0xD800) * 0x400 + (m - 0xDC00)) :: s, r)
          else none
        | none => none
      else if 0xDC00 ≤ n ∧ n < 0xE000 then none
      else (lexString ('\\' :: 'u' :: e :: f :: g :: h :: rest)).map fun (s, r) =>
        (Char.ofNat n :: s, r)
  | '\\' :: 'u' :: a :: b :: c :: d :: rest =>
    match hexValues? [a, b, c, d] with
    | some n =>
      if 0xD800 ≤ n ∧ n < 0xE000 then none
      else (lexString rest).map fun (s, r) => (Char.ofNat n :: s, r)
    | none => none
  | '\\' :: c :: rest =>
    match simpleEscape? c with
    | some e => (lexString rest).map fun (s, r) => (e :: s, r)
    | none => none
  | c :: rest =>
    if c.toNat < 0x20 ∨ c = '\\' then none
    else (lexString rest).map fun (s, r) => (c :: s, r)

/-! ### Lexemes -/

/-- One lexeme at the start of a text, and the rest. -/
def lexOne : List Char → Option (Lexeme × List Char)
  | '[' :: rest => some (.openList, rest)
  | ']' :: rest => some (.closeList, rest)
  | '{' :: rest => some (.openObject, rest)
  | '}' :: rest => some (.closeObject, rest)
  | ',' :: rest => some (.comma, rest)
  | ':' :: rest => some (.colon, rest)
  | '"' :: rest => (lexString rest).map fun (s, r) => (.scalar (.text (String.ofList s)), r)
  | 'n' :: 'u' :: 'l' :: 'l' :: rest => some (.scalar .null, rest)
  | 't' :: 'r' :: 'u' :: 'e' :: rest => some (.scalar (.bool true), rest)
  | 'f' :: 'a' :: 'l' :: 's' :: 'e' :: rest => some (.scalar (.bool false), rest)
  | '-' :: rest => (lexUnsigned true rest).map fun (v, r) => (.scalar v, r)
  | cs => (lexUnsigned false cs).map fun (v, r) => (.scalar v, r)

/-- The lexemes of a text.  Each step consumes a character, so `fuel` bounds the length. -/
def lexemes : Nat → List Char → Option (List Lexeme)
  | _, [] => some []
  | 0, _ => none
  | fuel + 1, c :: cs =>
    if isJsonBlank c then lexemes fuel cs
    else do
      let (l, rest) ← lexOne (c :: cs)
      let ls ← lexemes fuel rest
      some (l :: ls)

/-! ### The machine -/

/-- An open container with what it holds so far: a list, newest member first, or an object and the
key whose value is being read. -/
inductive Frame where
  | list (members : List Value)
  | object (fields : List (String × Value)) (key : String)

/-- What may come next. -/
inductive Expect where
  | value
  | memberOrClose
  | keyOrClose
  | key (fields : List (String × Value))
  | colon (fields : List (String × Value)) (key : String)
  | afterValue (v : Value)

/-- The machine between two lexemes: the open containers, innermost first, and what it expects.  A
container is on the stack while one of its values is read. -/
structure Reading where
  stack : List Frame
  expect : Expect

/-- How many containers may be open at once. -/
def nestingLimit : Nat := 127

/-- The first lexeme of a value. -/
def Reading.begin (stack : List Frame) : Lexeme → Option Reading
  | .scalar v => some ⟨stack, .afterValue v⟩
  | .openList => if stack.length < nestingLimit then some ⟨stack, .memberOrClose⟩ else none
  | .openObject => if stack.length < nestingLimit then some ⟨stack, .keyOrClose⟩ else none
  | _ => none

/-- Reads one lexeme. -/
def Reading.step : Reading → Lexeme → Option Reading
  | ⟨stack, .value⟩, l => begin stack l
  | ⟨stack, .memberOrClose⟩, .closeList => some ⟨stack, .afterValue (.list [])⟩
  | ⟨stack, .memberOrClose⟩, l => begin (.list [] :: stack) l
  | ⟨stack, .keyOrClose⟩, .closeObject => some ⟨stack, .afterValue (.object [])⟩
  | ⟨stack, .keyOrClose⟩, .scalar (.text key) => some ⟨stack, .colon [] key⟩
  | ⟨stack, .key fields⟩, .scalar (.text key) => some ⟨stack, .colon fields key⟩
  | ⟨stack, .colon fields key⟩, .colon => some ⟨.object fields key :: stack, .value⟩
  | ⟨.list members :: stack, .afterValue v⟩, .comma =>
    some ⟨.list (v :: members) :: stack, .value⟩
  | ⟨.list members :: stack, .afterValue v⟩, .closeList =>
    some ⟨stack, .afterValue (.list (v :: members).reverse)⟩
  | ⟨.object fields key :: stack, .afterValue v⟩, .comma =>
    some ⟨stack, .key (setField key v fields)⟩
  | ⟨.object fields key :: stack, .afterValue v⟩, .closeObject =>
    some ⟨stack, .afterValue (.object (setField key v fields))⟩
  | _, _ => none

/-- The value that has been read, when nothing is open. -/
def Reading.result? : Reading → Option Value
  | ⟨[], .afterValue v⟩ => some v
  | _ => none

/-- The value that a JSON text stands for. -/
def ofJson? (s : String) : Option Value := do
  let ls ← lexemes s.toList.length s.toList
  let reading ← ls.foldlM Reading.step ⟨[], .value⟩
  reading.result?

end Pipeline.Value
