/-!
The shortest decimal that reads back as a given float: of the decimals with the fewest digits that
lie in the interval of reals rounding to it, the nearest. All is exact arithmetic on naturals.
-/

namespace MonitorExport.Decimal

/-- A finite float: `mantissa * 2 ^ exponent`, negated if `negative`. -/
structure Binary where
  negative : Bool
  mantissa : Nat
  exponent : Int
deriving DecidableEq

/-- The parts of a float, or `none` for an infinity and for no number. -/
def Binary.ofFloat? (x : Float) : Option Binary :=
  let bits := x.toBits.toNat
  let negative := bits / Nat.pow 2 63 = 1
  let biased : Nat := bits / Nat.pow 2 52 % Nat.pow 2 11
  let fraction := bits % Nat.pow 2 52
  if biased = 2047 then none
  else if biased = 0 then some ⟨negative, fraction, -1074⟩
  else some ⟨negative, Nat.pow 2 52 + fraction, biased - 1075⟩

/-- The integer that a finite float is, or `none` if it has a fraction. -/
def Binary.toInt? (b : Binary) : Option Int :=
  let sign : Int → Int := fun n => if b.negative then -n else n
  if 0 ≤ b.exponent then
    some (sign (b.mantissa * Nat.pow 2 b.exponent.toNat : Nat))
  else
    let unit := Nat.pow 2 (-b.exponent).toNat
    if b.mantissa % unit = 0 then some (sign (b.mantissa / unit : Nat)) else none

/-- Which of two equally near neighbours is taken. -/
inductive Tie where
  | away
  | even
deriving DecidableEq

/-- `digits * 10 ^ exponent`. -/
structure Digits where
  digits : Nat
  exponent : Int
deriving DecidableEq

/-- The quotient `num / den` of naturals that a power of ten scales. -/
def scaled (n : Nat) (exponent : Int) : Nat × Nat :=
  if 0 ≤ exponent then (n * Nat.pow 10 exponent.toNat, 1) else (n, Nat.pow 10 (-exponent).toNat)

/-- A positive real as a quotient of naturals, with the bounds of the interval that rounds to it, all
over one denominator. The bounds belong to the interval if `closed`. -/
structure Interval where
  low : Nat
  mid : Nat
  high : Nat
  den : Nat
  closed : Bool

/-- The reals that round to a positive float. Below a power of two the next float is only half as far
away as above it, unless the float is subnormal. -/
def Binary.interval (b : Binary) : Interval :=
  let lower := if b.mantissa = Nat.pow 2 52 ∧ b.exponent ≠ -1074 then 1 else 2
  let (num, den) : Nat × Nat :=
    if 2 ≤ b.exponent then (Nat.pow 2 (b.exponent - 2).toNat, 1) else (1, Nat.pow 2 (2 - b.exponent).toNat)
  { low := (4 * b.mantissa - lower) * num
    mid := 4 * b.mantissa * num
    high := (4 * b.mantissa + 2) * num
    den
    closed := b.mantissa % 2 = 0 }

namespace Interval

/-- Whether `d * 10 ^ exponent` lies in the interval. -/
def contains (i : Interval) (d : Nat) (exponent : Int) : Bool :=
  let (n, m) := scaled (d * i.den) exponent
  if i.closed then i.low * m ≤ n && n ≤ i.high * m else i.low * m < n && n < i.high * m

/-- Whether the middle is at least `10 ^ exponent`. -/
def atLeast (i : Interval) (exponent : Int) : Bool :=
  let (n, m) := scaled i.den exponent
  n ≤ i.mid * m

/-- The exponent of the middle's first decimal digit, found from its binary size. -/
def firstExponent (i : Interval) : Int :=
  let guess := ((Nat.log2 i.mid : Int) - (Nat.log2 i.den : Int)) * 30103 / 100000
  if i.atLeast (guess + 1) then guess + 1
  else if i.atLeast guess then guess
  else guess - 1

/-- The point of the grid of `10 ^ exponent` that lies in the interval and is nearest to its middle,
if there is one. It can only be one of the middle's two neighbours on the grid. -/
def nearest (i : Interval) (tie : Tie) (exponent : Int) : Option Nat :=
  let (step, scale) := scaled i.den exponent
  let d := i.mid * scale / step
  let rest := i.mid * scale % step
  match i.contains d exponent, i.contains (d + 1) exponent with
  | false, false => none
  | true, false => some d
  | false, true => some (d + 1)
  | true, true =>
    if 2 * rest < step then some d
    else if step < 2 * rest then some (d + 1)
    else match tie with
      | .away => some (d + 1)
      | .even => some (if d % 2 = 0 then d else d + 1)

end Interval

/-- `d` without its trailing zeros, at most `fuel` of them. -/
def dropZeros : Nat → Digits → Digits
  | 0, d => d
  | fuel + 1, d =>
    if d.digits ≠ 0 ∧ d.digits % 10 = 0 then dropZeros fuel ⟨d.digits / 10, d.exponent + 1⟩ else d

/-- The shortest decimal in the interval of a positive float. Seventeen digits always suffice. -/
def shortest (b : Binary) (tie : Tie) : Digits :=
  let i := b.interval
  let first := i.firstExponent
  let found := (List.range 17).findSome? fun (more : Nat) =>
    (i.nearest tie (first - more)).map fun d => (⟨d, first - more⟩ : Digits)
  dropZeros 17 (found.getD ⟨0, 0⟩)

end MonitorExport.Decimal
