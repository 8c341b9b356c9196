/-!
TOML values, and the records that are read from them.
-/

namespace MonitorExport

/-- A TOML value. -/
inductive Toml where
  | bool (flag : Bool)
  | int (number : Int)
  | float (number : Float)
  | str (characters : String)
  /-- A date, a time of day, or both. -/
  | time (written : String)
  | array (items : List Toml)
  | table (members : List (String × Toml))

namespace Toml

instance : Inhabited Toml := ⟨.table []⟩

/-- What a record was given for its declared members, in their order: nothing for one left out.
Members are taken from a table by name, or from an array by place; what is not declared is
skipped. A date or time counts as a table without any of them. -/
def record? (declared : List String) : Toml → Option (List (Option Toml))
  | .table members => some (declared.map fun key => members.lookup key)
  | .array items => some (declared.mapIdx fun i _ => items[i]?)
  | .time _ => some (declared.map fun _ => none)
  | _ => none

/-- The text that a value is. -/
def text? : Toml → Option String
  | .str s => some s
  | _ => none

/-- The truth value that a value is. -/
def bool? : Toml → Option Bool
  | .bool flag => some flag
  | _ => none

/-- The count that a value is. -/
def count? : Toml → Option Nat
  | .int n => if 0 ≤ n then some n.toNat else none
  | _ => none

/-- The items that a value has. -/
def items? : Toml → Option (List Toml)
  | .array items => some items
  | _ => none

end Toml

end MonitorExport
