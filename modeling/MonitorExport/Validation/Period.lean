import MonitorExport.Validation.Error

/-!
Time periods: an amount and a unit, read from a count of seconds or from a text such as `15m`, and
written in the largest unit that divides the period exactly.
-/

namespace MonitorExport

/-- Units of time from seconds to weeks. -/
inductive TimeUnit where
  | second
  | minute
  | hour
  | day
  | week
deriving DecidableEq

namespace TimeUnit

/-- The letter that stands for a unit. -/
def letter : TimeUnit → Char
  | .second => 's'
  | .minute => 'm'
  | .hour => 'h'
  | .day => 'd'
  | .week => 'w'

/-- The unit that a letter stands for. -/
def ofLetter? : Char → Option TimeUnit
  | 's' => some .second
  | 'm' => some .minute
  | 'h' => some .hour
  | 'd' => some .day
  | 'w' => some .week
  | _ => none

/-- The length of a unit in seconds. -/
def seconds : TimeUnit → Nat
  | .second => 1
  | .minute => 60
  | .hour => 60 * 60
  | .day => 24 * 60 * 60
  | .week => 7 * 24 * 60 * 60

/-- Each unit with the next larger one and how many of it that one holds. -/
def steps : List (TimeUnit × TimeUnit × Nat) :=
  [(.second, .minute, 60), (.minute, .hour, 60), (.hour, .day, 24), (.day, .week, 7)]

end TimeUnit

/-- An amount of a unit of time. -/
structure Period where
  amount : Nat
  unit : TimeUnit
deriving DecidableEq

namespace Period

def seconds (p : Period) : Nat :=
  p.amount * p.unit.seconds

/-- Splits digits, of any script, from the letter of a unit; without a letter the unit is the second. -/
def splitUnit? (cs : List Char) : Option (List Char × TimeUnit) :=
  let digits := cs.takeWhile Text.isDecimalDigit
  if digits = [] then none else
  match cs.dropWhile Text.isDecimalDigit with
  | [] => some (digits, .second)
  | [c] => (TimeUnit.ofLetter? c).map (digits, ·)
  | _ => none

/-- The period that a value stands for: a count of seconds, or a text that is trimmed first. -/
def ofValue : Value → Except ValidationError Period
  | .int n => if 0 ≤ n then .ok ⟨n.toNat, .second⟩ else .error (.noPeriodKind (.int n))
  | .text s =>
    match splitUnit? (Text.trimmed s.toList) with
    | none => .error (.notPeriod s)
    | some (digits, unit) =>
      match Text.readNat64 digits with
      | none => .error (.periodOutOfRange s)
      | some amount => .ok ⟨amount, unit⟩
  | v => .error (.noPeriodKind v)

/-- One step towards larger units: taken if the period is of the smaller unit, not zero, and a whole
number of the larger one. -/
def grow (p : Period) : TimeUnit × TimeUnit × Nat → Period
  | (small, large, count) =>
    if p.unit = small ∧ p.amount % count = 0 ∧ p.amount ≠ 0 then ⟨p.amount / count, large⟩ else p

def compress (p : Period) : Period :=
  TimeUnit.steps.foldl grow p

def text (p : Period) : String :=
  (toString p.amount).push p.unit.letter

def format (v : Value) : Except ValidationError String :=
  (ofValue v).map fun p => p.compress.text

end Period

end MonitorExport
