import Pipeline.Decimal.Binary64

/-!
# Decimal — numerals

Reading numbers from text.  `readNumeral?` takes the free form: an optional sign, digits with an
optional point on either side of which digits may be missing, an optional exponent, or one of the
words `inf`, `infinity` and `nan` in any case.  `readWord?` takes an unsigned machine word.
-/

namespace Pipeline.Decimal

/-- The value of a decimal digit. -/
def digit (c : Char) : Nat := c.toNat - '0'.toNat

/-- A whole number that is read digit by digit: `high * scale + low`.  Digits go to the low part,
which is added to the high part when it has sixteen of them, so that the long number is touched at
every sixteenth digit only. -/
structure DigitRun where
  high : Nat
  scale : Nat
  low : Nat

namespace DigitRun

/-- The number read. -/
def value (r : DigitRun) : Nat := r.high * r.scale + r.low

/-- Reads one more digit. -/
def push (r : DigitRun) (c : Char) : DigitRun :=
  if r.scale < Nat.pow 10 16 then ⟨r.high, r.scale * 10, r.low * 10 + digit c⟩
  else ⟨r.value, 10, digit c⟩

theorem value_push (r : DigitRun) (c : Char) : (r.push c).value = r.value * 10 + digit c := by
  unfold push
  split
  · simp only [value, Nat.add_mul, Nat.mul_assoc, Nat.add_assoc]
  · rfl

theorem value_foldl_push (ds : List Char) (r : DigitRun) :
    (ds.foldl push r).value = ds.foldl (fun n c => n * 10 + digit c) r.value := by
  induction ds generalizing r with
  | nil => rfl
  | cons c ds ih => rw [List.foldl_cons, List.foldl_cons, ih, value_push]

end DigitRun

/-- The value of a list of decimal digits, most significant first. -/
def digitsValue (ds : List Char) : Nat := (ds.foldl DigitRun.push ⟨0, 1, 0⟩).value

theorem digitsValue_eq_foldl (ds : List Char) :
    digitsValue ds = ds.foldl (fun n c => n * 10 + digit c) 0 :=
  DigitRun.value_foldl_push ds ⟨0, 1, 0⟩

/-- The digits a text starts with, and the rest. -/
def spanDigits (cs : List Char) : List Char × List Char :=
  (cs.takeWhile Char.isDigit, cs.dropWhile Char.isDigit)

/-- A sign and the text behind it. -/
def readSign : List Char → Bool × List Char
  | '-' :: cs => (true, cs)
  | '+' :: cs => (false, cs)
  | cs => (false, cs)

/-- The value of an exponent's digits.  DigitRun stops where the value has more than sixteen bits;
the digits behind that do not count. -/
def exponentValue (ds : List Char) : Nat :=
  ds.foldl (fun n d => if n < 0x10000 then n * 10 + digit d else n) 0

/-- The exponent that ends a numeral: nothing, or a mark, a sign and at least one digit. -/
def readExponent? : List Char → Option Int
  | [] => some 0
  | mark :: cs =>
    if mark = 'e' ∨ mark = 'E' then
      let (negative, ds) := readSign cs
      if !ds.isEmpty && ds.all Char.isDigit then
        some (if negative then -(exponentValue ds : Int) else exponentValue ds)
      else none
    else none

/-- The part of a numeral behind its whole digits: fraction digits and exponent. -/
def readFraction? : List Char → Option (List Char × Int)
  | '.' :: cs =>
    let (fraction, rest) := spanDigits cs
    (readExponent? rest).map (fraction, ·)
  | cs => (readExponent? cs).map ([], ·)

/-- A numeral without its sign. -/
def readUnsigned? (negative : Bool) (cs : List Char) : Option Binary64 :=
  let word := String.ofList (cs.map Char.toLower)
  if word = "inf" ∨ word = "infinity" then some (.infinite negative)
  else if word = "nan" then some .nan
  else
    let (whole, rest) := spanDigits cs
    match readFraction? rest with
    | some (fraction, exponent) =>
      if whole.isEmpty && fraction.isEmpty then none
      else some (.ofDecimal negative (digitsValue (whole ++ fraction))
        (exponent - fraction.length))
    | none => none

/-- The number that a numeral stands for. -/
def readNumeral? (cs : List Char) : Option Binary64 :=
  let (negative, rest) := readSign cs
  readUnsigned? negative rest

/-- The largest unsigned machine word. -/
def wordMax : Nat := Nat.pow 2 64 - 1

/-- An unsigned machine word in decimal digits, with an optional plus sign. -/
def readWord? (s : String) : Option Nat :=
  let ds := match s.toList with
    | '+' :: cs => cs
    | cs => cs
  if !ds.isEmpty && ds.all Char.isDigit && digitsValue ds ≤ wordMax then some (digitsValue ds)
  else none

end Pipeline.Decimal
