import MonitorExport.Text.Digits

/-!
Reading decimals as floats: the float nearest to the decimal, ties to the even one.
-/

namespace MonitorExport.Decimal

/-- The float nearest to `m * 10 ^ exponent`. Decimals far outside the range of floats are settled by
their size, without a power of ten of that size. -/
def toFloat (m : Nat) (exponent : Int) : Float :=
  let first := exponent + (Nat.toDigits 10 m).length
  if m = 0 ∨ first < -340 then 0.0
  else if 320 < first then 1.0 / 0.0
  else Float.ofScientific m (exponent < 0) exponent.natAbs

/-- The exponent part of a decimal: nothing, or a mark and a signed number. -/
def readExponent : List Char → Option Int
  | [] => some 0
  | c :: rest => if c = 'e' ∨ c = 'E' then Text.readInt rest else none

/-- A decimal without sign: digits, perhaps a point and digits, perhaps an exponent. There is a digit
on one side of the point at least. -/
def readUnsigned (cs : List Char) : Option Float :=
  let whole := cs.takeWhile Char.isDigit
  let rest := cs.dropWhile Char.isDigit
  let (fraction, rest) := match rest with
    | '.' :: more => (more.takeWhile Char.isDigit, more.dropWhile Char.isDigit)
    | rest => ([], rest)
  match Text.readDigits (whole ++ fraction), readExponent rest with
  | some m, some exponent => some (toFloat m (exponent - fraction.length))
  | _, _ => none

/-- A decimal with an optional sign, or a name of infinity or of no number in any case of letters. -/
def read (s : String) : Option Float :=
  let body : List Char → Option Float := fun cs =>
    match String.ofList (cs.map Char.toLower) with
    | "inf" => some (1.0 / 0.0)
    | "infinity" => some (1.0 / 0.0)
    | "nan" => some (0.0 / 0.0)
    | _ => readUnsigned cs
  match s.toList with
  | '-' :: cs => (body cs).map Float.neg
  | '+' :: cs => body cs
  | cs => body cs

end MonitorExport.Decimal
