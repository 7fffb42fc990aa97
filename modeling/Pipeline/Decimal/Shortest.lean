import Pipeline.Decimal.Binary64

/-!
# Decimal — shortest digits

The fewest decimal digits that read back as a given binary64 number.  A finite number stands for
an interval of reals, all that round to it; its ends belong to it when the mantissa is even.
Grids of one, two, … decimal digits are tried in turn, and on each grid the two neighbours of the
number: if any point of a grid lies in the interval, so does one of these two.
-/

namespace Pipeline.Decimal

/-- Digits without trailing zeros, and the power of ten they are multiplied by. -/
structure Digits where
  digits : Nat
  power : Int
  deriving DecidableEq, Repr

/-- What to do when two shortest decimals are equally near. -/
inductive Tie where
  | up
  | even
  deriving DecidableEq, Repr

/-- The numbers `value`, `low` and `high` of an interval over one denominator. -/
structure Interval where
  value : Nat
  low : Nat
  high : Nat
  den : Nat
  closed : Bool

/-- The reals that round to `mantissa * 2 ^ exponent`.  Below a power of two the neighbour is half
as far away. -/
def Interval.ofBinary (mantissa : Nat) (exponent : Int) : Interval :=
  let narrow := mantissa = Nat.pow 2 52 && exponent > Binary64.leastExponent
  let e := exponent - 2
  let up := if e ≥ 0 then Nat.pow 2 e.toNat else 1
  let den := if e ≥ 0 then 1 else Nat.pow 2 (-e).toNat
  { value := 4 * mantissa * up
    low := (4 * mantissa - if narrow then 1 else 2) * up
    high := (4 * mantissa + 2) * up
    den
    closed := mantissa % 2 = 0 }

/-- The power `10 ^ p` as a ratio. -/
def tenPower (p : Int) : Nat × Nat :=
  if p ≥ 0 then (Nat.pow 10 p.toNat, 1) else (1, Nat.pow 10 (-p).toNat)

/-- The value of the interval is below `10 ^ p`. -/
def Interval.isBelow (i : Interval) (p : Int) : Bool :=
  let t := tenPower p
  i.value * t.2 < i.den * t.1

/-- The `p` with `10 ^ (p - 1) ≤ value < 10 ^ p`.  The binary magnitude bounds it from below, and
it is at most three above that bound. -/
def Interval.magnitude (i : Interval) : Int :=
  let least := (Binary64.ratioLog2 i.value i.den * 30103).fdiv 100000
  if i.isBelow least then least
  else if i.isBelow (least + 1) then least + 1
  else if i.isBelow (least + 2) then least + 2
  else least + 3

/-- The number `c * 10 ^ p` lies in the interval. -/
def Interval.holds (i : Interval) (c : Nat) (p : Int) : Bool :=
  let t := tenPower p
  let x := c * t.1 * i.den
  if i.closed then i.low * t.2 ≤ x && x ≤ i.high * t.2
  else i.low * t.2 < x && x < i.high * t.2

/-- The nearest multiple of `10 ^ p` that lies in the interval, if one does. -/
def Interval.onGrid? (i : Interval) (tie : Tie) (p : Int) : Option Nat :=
  let t := tenPower p
  let unit := i.den * t.1
  let c := i.value * t.2 / unit
  match i.holds c p, i.holds (c + 1) p with
  | true, true =>
    -- Twice the way from `c` to the value, compared with one unit.
    let twice := 2 * (i.value * t.2 % unit)
    let goUp := twice > unit || (twice == unit && (tie == .up || c % 2 == 1))
    some (if goUp then c + 1 else c)
  | true, false => some c
  | false, true => some (c + 1)
  | false, false => none

/-- Moves trailing zeros into the power. -/
def Digits.strip (d : Nat) (p : Int) : Digits :=
  if d ≠ 0 ∧ d % 10 = 0 then Digits.strip (d / 10) (p + 1) else ⟨d, p⟩
termination_by d
decreasing_by omega

/-- The shortest digits of the positive number `mantissa * 2 ^ exponent`; seventeen suffice. -/
def shortest (tie : Tie) (mantissa : Nat) (exponent : Int) : Digits :=
  let i := Interval.ofBinary mantissa exponent
  let found := (List.range 17).findSome? fun (n : Nat) =>
    let p := i.magnitude - (n + 1)
    (i.onGrid? tie p).map (Digits.strip · p)
  found.getD ⟨0, 0⟩

end Pipeline.Decimal
