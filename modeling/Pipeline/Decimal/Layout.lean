import Pipeline.Decimal.Shortest

/-!
# Decimal — number text

How the shortest digits of a number are laid out.  One record holds the decisions of a format:
which magnitudes are written positionally, whether a whole number keeps a decimal, and how ties
between shortest decimals go.
-/

namespace Pipeline.Decimal

/-- The decisions of a number format.  A number `d.ddd * 10 ^ e` is written positionally when `e`
lies between `leastPositional` and `greatestPositional`, where `none` sets no bound. -/
structure Layout where
  leastPositional : Option Int
  greatestPositional : Option Int
  keepsDecimal : Bool
  tie : Tie

/-- The decimal digits of a whole number. -/
def wholeDigits (n : Nat) : List Char := Nat.toDigits 10 n

/-- As many zeros as `count` says. -/
def zeros (count : Nat) : List Char := List.replicate count '0'

/-- Digits with the decimal point where it belongs; a whole number gets `whole` behind it. -/
def positional (digits : List Char) (power : Int) (whole : List Char) : List Char :=
  if power ≥ 0 then digits ++ zeros power.toNat ++ whole
  else
    let places := (-power).toNat
    if places < digits.length then
      digits.take (digits.length - places) ++ '.' :: digits.drop (digits.length - places)
    else
      '0' :: '.' :: zeros (places - digits.length) ++ digits

/-- Digits with one before the point, and a signed exponent. -/
def scientific (digits : List Char) (exponent : Int) : List Char :=
  let point := if digits.length > 1 then '.' :: digits.drop 1 else []
  let sign := if exponent < 0 then '-' else '+'
  digits.take 1 ++ point ++ 'e' :: sign :: wholeDigits exponent.natAbs

/-- A positive finite number. -/
def Layout.magnitude (l : Layout) (mantissa : Nat) (exponent : Int) : List Char :=
  let d := shortest l.tie mantissa exponent
  let digits := wholeDigits d.digits
  let e := d.power + digits.length - 1
  if l.leastPositional.all (· ≤ e) && l.greatestPositional.all (e ≤ ·) then
    positional digits d.power (if l.keepsDecimal then ['.', '0'] else [])
  else
    scientific digits e

/-- The text of a number. -/
def Layout.write (l : Layout) : Binary64 → List Char
  | .nan => ['N', 'a', 'N']
  | .infinite s => (if s then ['-'] else []) ++ ['i', 'n', 'f']
  | .finite s m e =>
    let text := if m = 0 then '0' :: (if l.keepsDecimal then ['.', '0'] else [])
      else l.magnitude m e
    if s then '-' :: text else text

/-- Numbers inside messages: always positional, whole numbers without a point. -/
def Layout.message : Layout := ⟨none, none, false, .up⟩

end Pipeline.Decimal
