import MonitorExport.Json.Decode
import MonitorExport.Value

/-!
Scalar values as JSON.
-/

namespace MonitorExport

/-- The document of a value. -/
def Value.toJson : Value → Json
  | .bool flag => .bool flag
  | .int number => .int number
  | .float number => .float number
  | .text s => .str s

/-- The value that a term is. Integers of more than 64 bits become floats; null, arrays and objects are
no values. -/
def Json.Term.value? : Json.Term → Option Value
  | .bool flag => some (.bool flag)
  | .number (.int n) =>
    if Text.int64Min ≤ n ∧ n ≤ Text.int64Max then some (.int n) else some (.float (Float.ofInt n))
  | .number (.float x) => some (.float x)
  | .str (some s) => some (.text s)
  | _ => none

end MonitorExport
