import MonitorExport.Json
import MonitorExport.Text.Digits

/-!
Documents of servers that write numbers as strings, with the numbers restored.
-/

namespace MonitorExport.Json

/-- The number that a string of ASCII digits writes, if it fits 64 bits; other strings stay. -/
def ofDigits (s : String) : Json :=
  match (Text.readDigits s.toList).filter (· < Text.int64Count) with
  | some n => .int n
  | none => .str s

mutual

/-- The document with the strings of digits in it, at any depth, replaced by numbers. -/
def withNumbers : Json → Json
  | .str s => ofDigits s
  | .arr items => .arr (itemsWithNumbers items)
  | .obj members => .obj (membersWithNumbers members)
  | j => j

/-- The items with numbers restored. -/
def itemsWithNumbers : List Json → List Json
  | [] => []
  | j :: rest => withNumbers j :: itemsWithNumbers rest

/-- The members with numbers restored in their values. -/
def membersWithNumbers : List (String × Json) → List (String × Json)
  | [] => []
  | (key, j) :: rest => (key, withNumbers j) :: membersWithNumbers rest

end

end MonitorExport.Json
