/-!
# Decimal — binary64 numbers

The numbers of the expression language: a sign and a whole mantissa times a power of two, an
infinity, or the result that is not a number.  A finite number is kept in the one form that the
format allows: the mantissa is below `2 ^ 53`, the exponent is at least `-1074`, and a mantissa
below `2 ^ 52` occurs at that exponent only.

Arithmetic is exact up to one rounding: each operation forms its result as a ratio of whole
numbers, and `round` takes the nearest number of the format, a tie going to the even mantissa.
Powers are the exception; they are taken from the machine.
-/

namespace Pipeline

/-- A number of the binary64 format. -/
inductive Binary64 where
  | finite (negative : Bool) (mantissa : Nat) (exponent : Int)
  | infinite (negative : Bool)
  | nan
  deriving DecidableEq, Repr, Inhabited

namespace Binary64

/-- The exponent of the numbers closest to zero. -/
def leastExponent : Int := -1074

/-- The exponent of the largest finite numbers. -/
def greatestExponent : Int := 971

/-- The zero of the given sign. -/
def zero (negative : Bool) : Binary64 := .finite negative 0 leastExponent

/-- The quotient `num / den` with a half and more going up, an exact half to the even neighbour. -/
def divNearest (num den : Nat) : Nat :=
  let q := num / den
  let r := num % den
  if 2 * r > den || (2 * r == den && q % 2 == 1) then q + 1 else q

/-- The ratio `num / den` divided by `2 ^ e`, again as a ratio. -/
def scaleDown (num den : Nat) (e : Int) : Nat × Nat :=
  if e ≥ 0 then (num, den * Nat.pow 2 e.toNat) else (num * Nat.pow 2 (-e).toNat, den)

/-- The exponent `k` with `2 ^ k ≤ num / den < 2 ^ (k + 1)`, for a positive ratio. -/
def ratioLog2 (num den : Nat) : Int :=
  let k : Int := (num.log2 : Int) - (den.log2 : Int)
  let scaled := scaleDown num den k
  if scaled.1 < scaled.2 then k - 1 else k

/-- The number of the format that is nearest to `num / den`, an infinity if none is near. -/
def round (negative : Bool) (num den : Nat) : Binary64 :=
  if num = 0 then zero negative
  else
    let e := max (ratioLog2 num den - 52) leastExponent
    let scaled := scaleDown num den e
    let m := divNearest scaled.1 scaled.2
    let m' := if m = Nat.pow 2 53 then Nat.pow 2 52 else m
    let e' := if m = Nat.pow 2 53 then e + 1 else e
    if e' > greatestExponent then .infinite negative else .finite negative m' e'

/-- The number `mantissa * 2 ^ exponent`, rounded. -/
def roundScaled (negative : Bool) (mantissa : Nat) (exponent : Int) : Binary64 :=
  if exponent ≥ 0 then round negative (mantissa * Nat.pow 2 exponent.toNat) 1
  else round negative mantissa (Nat.pow 2 (-exponent).toNat)

/-- The number nearest to a whole number. -/
def ofInt (i : Int) : Binary64 := round (i < 0) i.natAbs 1

/-- The number nearest to `digits * 10 ^ power`.  A power far outside the format is not carried out:
digits from `2 ^ n` up are at least `10 ^ (3 * n / 10)`, digits below `2 ^ (n + 1)` are below
`10 ^ (302 * (n + 1) / 1000 + 1)`, and so an infinity or a zero is certain where these bounds leave
the format. -/
def ofDecimal (negative : Bool) (digits : Nat) (power : Int) : Binary64 :=
  if digits = 0 then zero negative
  else
    let least : Nat := digits.log2 * 3 / 10
    let greatest : Nat := (digits.log2 + 1) * 302 / 1000 + 1
    if least + power > 310 then .infinite negative
    else if greatest + power < -330 then zero negative
    else if power ≥ 0 then round negative (digits * Nat.pow 10 power.toNat) 1
    else round negative digits (Nat.pow 10 (-power).toNat)

/-- Neither infinite nor `nan`. -/
def isFinite : Binary64 → Bool
  | .finite .. => true
  | _ => false

/-- Either zero. -/
def isZero : Binary64 → Bool
  | .finite _ m _ => m == 0
  | _ => false

/-- The sign turned round. -/
def neg : Binary64 → Binary64
  | .finite s m e => .finite (!s) m e
  | .infinite s => .infinite (!s)
  | .nan => .nan

/-- A finite number as a signed multiple of `2 ^ base`, for a `base` not above its exponent. -/
def signedAt (base : Int) (negative : Bool) (m : Nat) (e : Int) : Int :=
  let n : Nat := m * Nat.pow 2 (e - base).toNat
  if negative then -n else n

/-- The sum.  Zeros of two signs, and opposite numbers, add to the positive zero. -/
def add : Binary64 → Binary64 → Binary64
  | .finite s m e, .finite s' m' e' =>
    let base := min e e'
    let sum := signedAt base s m e + signedAt base s' m' e'
    if sum = 0 then zero (s && s') else roundScaled (sum < 0) sum.natAbs base
  | .nan, _ => .nan
  | _, .nan => .nan
  | .infinite s, .infinite s' => if s = s' then .infinite s else .nan
  | .infinite s, _ => .infinite s
  | _, .infinite s => .infinite s

/-- The difference. -/
def sub (a b : Binary64) : Binary64 := add a b.neg

/-- The product. -/
def mul : Binary64 → Binary64 → Binary64
  | .finite s m e, .finite s' m' e' => roundScaled (s != s') (m * m') (e + e')
  | .nan, _ => .nan
  | _, .nan => .nan
  | .infinite s, .infinite s' => .infinite (s != s')
  | .infinite s, .finite s' m _ => if m = 0 then .nan else .infinite (s != s')
  | .finite s m _, .infinite s' => if m = 0 then .nan else .infinite (s != s')

/-- The quotient. -/
def div : Binary64 → Binary64 → Binary64
  | .finite s m e, .finite s' m' e' =>
    if m' = 0 then (if m = 0 then .nan else .infinite (s != s'))
    else
      let scaled := scaleDown m m' (e' - e)
      round (s != s') scaled.1 scaled.2
  | .nan, _ => .nan
  | _, .nan => .nan
  | .infinite _, .infinite _ => .nan
  | .infinite s, .finite s' _ _ => .infinite (s != s')
  | .finite s _ _, .infinite s' => zero (s != s')

/-- The remainder of the division towards zero, with the sign of the dividend. -/
def rem : Binary64 → Binary64 → Binary64
  | .finite s m e, .finite _ m' e' =>
    if m' = 0 then .nan
    else
      let base := min e e'
      let r := m * Nat.pow 2 (e - base).toNat % (m' * Nat.pow 2 (e' - base).toNat)
      roundScaled s r base
  | .nan, _ => .nan
  | _, .nan => .nan
  | .infinite _, _ => .nan
  | .finite s m e, .infinite _ => .finite s m e

/-- The order of numbers; `nan` compares with nothing and the two zeros are equal. -/
def compare? : Binary64 → Binary64 → Option Ordering
  | .finite s m e, .finite s' m' e' =>
    let base := min e e'
    some (compare (signedAt base s m e) (signedAt base s' m' e'))
  | .nan, _ => none
  | _, .nan => none
  | .infinite s, .infinite s' => some (compare s' s)
  | .infinite s, .finite .. => some (if s then .lt else .gt)
  | .finite .., .infinite s => some (if s then .gt else .lt)

/-- Equality as numbers. -/
def same (a b : Binary64) : Bool := compare? a b == some .eq

/-- The whole number that a finite number is, if it is one. -/
def toInt? : Binary64 → Option Int
  | .finite s m e =>
    if e ≥ 0 then some (signedAt 0 s m e)
    else
      let unit : Nat := Nat.pow 2 (-e).toNat
      if m % unit = 0 then some (signedAt 0 s (m / unit) 0) else none
  | _ => none

/-- The 64 bits that encode the number. -/
def toBits : Binary64 → UInt64
  | .finite s m e =>
    let field := if m < Nat.pow 2 52 then m
      else (e + 1075).toNat * Nat.pow 2 52 + (m - Nat.pow 2 52)
    UInt64.ofNat ((if s then Nat.pow 2 63 else 0) + field)
  | .infinite s => UInt64.ofNat ((if s then Nat.pow 2 63 else 0) + 2047 * Nat.pow 2 52)
  | .nan => UInt64.ofNat (2047 * Nat.pow 2 52 + Nat.pow 2 51)

/-- The number that 64 bits encode. -/
def ofBits (bits : UInt64) : Binary64 :=
  let n := bits.toNat
  let s : Bool := n ≥ Nat.pow 2 63
  let field : Nat := n % Nat.pow 2 63
  let biased : Nat := field / Nat.pow 2 52
  let m : Nat := field % Nat.pow 2 52
  if biased = 2047 then (if m = 0 then .infinite s else .nan)
  else if biased = 0 then .finite s m leastExponent
  else .finite s (m + Nat.pow 2 52) ((biased : Int) - 1075)

/-- The power, as the machine computes it. -/
def pow (a b : Binary64) : Binary64 :=
  ofBits (Float.pow (Float.ofBits a.toBits) (Float.ofBits b.toBits)).toBits

end Binary64

end Pipeline
