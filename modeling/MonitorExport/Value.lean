import MonitorExport.Decimal.Layout
import MonitorExport.Decimal.Reading
import MonitorExport.Text.Blank
import MonitorExport.Text.Digits
import MonitorExport.Text.Quoted

/-!
Scalar values, the loose equality that matches them against choices and identities, and the texts
they are written as.
-/

namespace MonitorExport

/-- A scalar value of a field. -/
inductive Value where
  | bool (flag : Bool)
  | int (number : Int)
  | float (number : Float)
  | text (characters : String)

namespace Value

instance : Inhabited Value := ⟨.text ""⟩

/-- The number that a value counts as: truth values count as 0 and 1, texts as none. -/
def toNumber? : Value → Option Float
  | .bool flag => some (if flag then 1.0 else 0.0)
  | .int number => some (Float.ofInt number)
  | .float number => some number
  | .text _ => none

/-- Loose equality: numbers of any kind compare as floats, texts with texts alone. -/
def looseEq (a b : Value) : Bool :=
  match a.toNumber?, b.toNumber? with
  | some x, some y => x == y
  | _, _ =>
    match a, b with
    | .text s, .text t => s == t
    | _, _ => false

/-- Equality of values of one kind. It is not reflexive at a float that is no number. -/
def strictEq : Value → Value → Bool
  | .bool a, .bool b => a == b
  | .int a, .int b => a == b
  | .float a, .float b => a == b
  | .text a, .text b => a == b
  | _, _ => false

def clampInt64 (n : Int) : Int :=
  max Text.int64Min (min Text.int64Max n)

/-- The integer that a value stands for: truth values, integers, floats without a fraction (at most
those of 64 bits) and texts of digits have one. -/
def toInt? : Value → Option Int
  | .bool flag => some (if flag then 1 else 0)
  | .int number => some number
  | .float number => ((Decimal.Binary.ofFloat? number).bind Decimal.Binary.toInt?).map clampInt64
  | .text s => Text.readInt64 (Text.trimmed s.toList)

/-- The text of a text value. -/
def text? : Value → Option String
  | .text s => some s
  | _ => none

/-- The text a value has in a compiled document, and which pruning rules compare. -/
def render : Value → String
  | .bool flag => if flag then "1" else "0"
  | .int number => toString number
  | .float number => Decimal.Layout.value.text number
  | .text s => s

/-- The text by which messages show a value, with its kind. -/
def describe : Value → String
  | .bool flag => if flag then "Bool(true)" else "Bool(false)"
  | .int number => s!"Int({number})"
  | .float number => s!"Float({Decimal.Layout.value.text number})"
  | .text s => s!"Text({Text.quoted s})"

end Value

end MonitorExport
