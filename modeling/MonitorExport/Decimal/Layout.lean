import MonitorExport.Decimal.Shortest

/-!
Texts of floats. A layout says when the digits are written positionally and how everything else is
spelled; the digits are the shortest that read back.
-/

namespace MonitorExport.Decimal

/-- How a float is spelled. -/
structure Layout where
  /-- The least exponent of the first digit with which a float is written positionally. -/
  least : Int
  /-- What stands between the mark of the exponent and an exponent that is not negative. -/
  plus : String
  /-- What decides between two equally near decimals. -/
  tie : Tie
  nan : String
  infinity : String
  negativeInfinity : String

/-- The layout of values: positional from `1e-4`, exponents without a plus sign. -/
def Layout.value : Layout where
  least := -4
  plus := ""
  tie := .away
  nan := "NaN"
  infinity := "inf"
  negativeInfinity := "-inf"

/-- The layout of JSON numbers: positional from `1e-5`, exponents with a plus sign. -/
def Layout.json : Layout where
  least := -5
  plus := "+"
  tie := .even
  nan := "null"
  infinity := "null"
  negativeInfinity := "null"

/-- The positional form, always with a fraction. -/
def positional (ds : List Char) (exponent : Int) : List Char :=
  if 0 ≤ exponent then
    ds ++ List.replicate exponent.toNat '0' ++ ['.', '0']
  else
    let places := (-exponent).toNat
    if places < ds.length then
      ds.take (ds.length - places) ++ '.' :: ds.drop (ds.length - places)
    else
      '0' :: '.' :: List.replicate (places - ds.length) '0' ++ ds

/-- The form with an exponent: one digit before the point, and no point if there are no more. -/
def scientific (l : Layout) (ds : List Char) (first : Int) : List Char :=
  let mantissa := match ds with
    | d :: e :: rest => d :: '.' :: e :: rest
    | ds => ds
  mantissa ++ 'e' :: (if 0 ≤ first then l.plus else "").toList ++ (toString first).toList

/-- The characters of a positive decimal. It is positional below `10 ^ 16`. -/
def Layout.characters (l : Layout) (d : Digits) : List Char :=
  let ds := Nat.toDigits 10 d.digits
  let first := d.exponent + ds.length - 1
  if l.least ≤ first ∧ first < 16 then positional ds d.exponent else scientific l ds first

/-- The text of a float. -/
def Layout.text (l : Layout) (x : Float) : String :=
  match Binary.ofFloat? x with
  | none => if x.isNaN then l.nan else if x < 0 then l.negativeInfinity else l.infinity
  | some b =>
    let sign := if b.negative then ['-'] else []
    let body := if b.mantissa = 0 then ['0', '.', '0'] else l.characters (shortest b l.tie)
    String.ofList (sign ++ body)

end MonitorExport.Decimal
