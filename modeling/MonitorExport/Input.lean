import MonitorExport.Entries
import MonitorExport.Value

/-!
What can be fed to a field: scalars, live entities, lists and nested mappings.
-/

namespace MonitorExport

/-- The name of an entity in a store. -/
structure EntityId where
  index : Nat
deriving DecidableEq, Inhabited

/-- What is given for a field. -/
inductive Input where
  | null
  | value (v : Value)
  | entity (e : EntityId)
  | list (items : List Input)
  | mapping (fields : Entries Input)

instance : Inhabited Input := ⟨.null⟩

/-- What is given for an entity: an input for each field named. -/
abbrev Fields := Entries Input

/-- The identity of a referenced entity: the values by which the export names it. -/
abbrev Identity := Entries Value

namespace Input

/-- The scalar that an input is. -/
def value? : Input → Option Value
  | .value v => some v
  | _ => none

/-- Whether nothing is given. -/
def isNull : Input → Bool
  | .null => true
  | _ => false

def text (s : String) : Input :=
  .value (.text s)

def int (n : Int) : Input :=
  .value (.int n)

mutual

/-- How many mappings are nested in an input. -/
def depth : Input → Nat
  | .list items => depthOfList items
  | .mapping fields => depthOfPairs fields.pairs + 1
  | _ => 0

/-- How many mappings are nested in one of the inputs. -/
def depthOfList : List Input → Nat
  | [] => 0
  | i :: rest => max (depth i) (depthOfList rest)

/-- How many mappings are nested in one of the values. -/
def depthOfPairs : List (String × Input) → Nat
  | [] => 0
  | (_, i) :: rest => max (depth i) (depthOfPairs rest)

end

def ofIdentity (identity : Identity) : Input :=
  .mapping (Entries.ofList (identity.pairs.map fun pair => (pair.1, .value pair.2)))

end Input

def Entries.depth (fields : Fields) : Nat :=
  Input.depthOfPairs fields.pairs

end MonitorExport
