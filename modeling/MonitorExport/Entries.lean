/-!
Ordered mappings: pairs of a key and a value in the order in which the keys came. A key that is given
a new value keeps its place.
-/

namespace MonitorExport

structure Entries (α : Type) where
  pairs : List (String × α)

namespace Entries

variable {α : Type}

def empty : Entries α := ⟨[]⟩

instance : Inhabited (Entries α) := ⟨empty⟩

/-- The pairs with the value of the first pair of `key` replaced, or with a new last pair. -/
def insertPair (key : String) (value : α) : List (String × α) → List (String × α)
  | [] => [(key, value)]
  | (k, v) :: rest => if k = key then (k, value) :: rest else (k, v) :: insertPair key value rest

/-- Gives `key` a value, in its old place or at the end. -/
def insert (m : Entries α) (key : String) (value : α) : Entries α :=
  ⟨insertPair key value m.pairs⟩

def get? (m : Entries α) (key : String) : Option α :=
  (m.pairs.find? fun pair => pair.1 = key).map (·.2)

def contains (m : Entries α) (key : String) : Bool :=
  m.pairs.any fun pair => pair.1 = key

def erase (m : Entries α) (key : String) : Entries α :=
  ⟨m.pairs.eraseP fun pair => pair.1 = key⟩

/-- Gives `key` a value at the end, unless it has one. -/
def setDefault (m : Entries α) (key : String) (value : α) : Entries α :=
  if m.contains key then m else ⟨m.pairs ++ [(key, value)]⟩

def keys (m : Entries α) : List String :=
  m.pairs.map (·.1)

def size (m : Entries α) : Nat :=
  m.pairs.length

def isEmpty (m : Entries α) : Bool :=
  m.pairs.isEmpty

def ofList (pairs : List (String × α)) : Entries α :=
  pairs.foldl (fun m pair => m.insert pair.1 pair.2) empty

end Entries

end MonitorExport
