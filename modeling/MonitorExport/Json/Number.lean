import MonitorExport.Json
import MonitorExport.Text.Digits

/-!
Reading JSON numbers. Integers of 64 bits stay integers. Any other number is a float: its first
digits that fit 64 bits, as a float, are multiplied or divided by a power of ten.
-/

namespace MonitorExport.Json

/-- What a JSON number is read as. -/
inductive Number where
  | int (number : Int)
  | float (number : Float)
  /-- The number is greater than all floats. -/
  | tooLarge

/-- The significant digits read so far, and how many more digits of the whole part were left out. -/
structure Significand where
  digits : Nat
  dropped : Nat

namespace Number

def digit (c : Char) : Nat :=
  c.toNat - 48

/-- Takes a digit of the whole part, unless the digits would not fit 64 bits. -/
def takeWhole (s : Significand) (c : Char) : Significand :=
  if s.dropped = 0 ∧ 10 * s.digits + digit c < Text.int64Count then ⟨10 * s.digits + digit c, 0⟩
  else ⟨s.digits, s.dropped + 1⟩

/-- Takes digits of the fraction as long as they fit 64 bits. The result counts the digits taken. -/
def takeFraction (digits places : Nat) : List Char → Nat × Nat
  | [] => (digits, places)
  | c :: rest =>
    if 10 * digits + digit c < Text.int64Count then takeFraction (10 * digits + digit c) (places + 1) rest
    else (digits, places)

/-- `f` times a power of ten. Exponents below the table of powers are reached by dividing by `1e308`
as often as it takes, after three times at most the quotient is zero. -/
def scale : Nat → Float → Int → Number
  | fuel, f, exponent =>
    if exponent.natAbs ≤ 308 then
      let power := Float.ofScientific 1 false exponent.natAbs
      if 0 ≤ exponent then
        let product := f * power
        if product.isInf then .tooLarge else .float product
      else .float (f / power)
    else if f == 0.0 then .float f
    else if 0 ≤ exponent then .tooLarge
    else match fuel with
      | 0 => .float 0.0
      | fuel + 1 => scale fuel (f / 1e308) (exponent + 308)

/-- The number with a sign. -/
def signed (negative : Bool) : Number → Number
  | .float f => .float (if negative then -f else f)
  | n => n

def ofParts (negative : Bool) (digits : Nat) (exponent : Int) : Number :=
  signed negative (scale 3 (Float.ofNat digits) exponent)

/-- The number of a whole part alone. Zero with a minus sign is a float. -/
def ofWhole (negative : Bool) (s : Significand) : Number :=
  if 0 < s.dropped then ofParts negative s.digits s.dropped
  else if !negative then .int s.digits
  else if s.digits = 0 ∨ (s.digits : Int) > -Text.int64Min then .float (-(Float.ofNat s.digits))
  else .int (-(s.digits : Int))

def exponentLimit : Nat := 0x80000000

/-- Reads the digits of an exponent. -/
def readPower (negative : Bool) (digits : Nat) (start : Int) (down : Bool) (cs : List Char) :
    Option (Number × List Char) :=
  let ds := cs.takeWhile Char.isDigit
  let rest := cs.dropWhile Char.isDigit
  if ds = [] then none else
  let e := ds.foldl (fun n c => min (10 * n + digit c) exponentLimit) 0
  if e = exponentLimit then
    if digits ≠ 0 ∧ !down then some (.tooLarge, rest)
    else some (signed negative (.float 0.0), rest)
  else
    some (ofParts negative digits (if down then start - e else start + e), rest)

/-- Reads what follows the mark of an exponent. -/
def readExponent (negative : Bool) (digits : Nat) (start : Int) : List Char → Option (Number × List Char)
  | '-' :: rest => readPower negative digits start true rest
  | '+' :: rest => readPower negative digits start false rest
  | cs => readPower negative digits start false cs

/-- Reads an exponent for digits, if there is one. Without one the number is `plain`. -/
def readMarked (negative : Bool) (digits : Nat) (start : Int) (plain : Number) :
    List Char → Option (Number × List Char)
  | 'e' :: rest => readExponent negative digits start rest
  | 'E' :: rest => readExponent negative digits start rest
  | rest => some (plain, rest)

/-- Reads what follows a whole part: perhaps a point with digits, perhaps an exponent. -/
def readBehind (negative : Bool) (s : Significand) : List Char → Option (Number × List Char)
  | '.' :: rest =>
    let fraction := rest.takeWhile Char.isDigit
    let rest := rest.dropWhile Char.isDigit
    if fraction = [] then none else
    let (digits, places) := takeFraction s.digits 0 fraction
    let exponent : Int := (s.dropped : Int) - (places : Int)
    readMarked negative digits exponent (ofParts negative digits exponent) rest
  | rest => readMarked negative s.digits s.dropped (ofWhole negative s) rest

/-- Reads a number without its sign: a whole part without superfluous zeros, and what follows it. -/
def readUnsigned (negative : Bool) (cs : List Char) : Option (Number × List Char) :=
  let whole := cs.takeWhile Char.isDigit
  let rest := cs.dropWhile Char.isDigit
  if whole = [] ∨ (whole.head? = some '0' ∧ 1 < whole.length) then none else
  readBehind negative (whole.foldl takeWhole ⟨0, 0⟩) rest

/-- Reads a number from the front of a text. -/
def read : List Char → Option (Number × List Char)
  | '-' :: rest => readUnsigned true rest
  | cs => readUnsigned false cs

end Number

end MonitorExport.Json
