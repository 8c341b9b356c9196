import MonitorExport.Toml.Value

/-!
How the keys and headers of a TOML document build its tables. A table remembers how it came about, which
decides what may still be written into it; nothing is ever written twice.
-/

namespace MonitorExport.Toml

/-- How a table came about. -/
inductive Origin where
  /-- It has a header of its own, or is the table that is written to. -/
  | header
  /-- It was passed by the header of another table. -/
  | implied
  /-- It was passed by a dotted key. -/
  | dotted
deriving DecidableEq

/-- A part of a document that is being built. -/
inductive Item where
  /-- A finished value. -/
  | value (v : Toml)
  | table (origin : Origin) (members : List (String × Item))
  /-- Tables with one header each, all of one name. -/
  | tables (items : List (List (String × Item)))

namespace Item

instance : Inhabited Item := ⟨.tables []⟩

mutual

/-- The value of a finished part. -/
def toValue : Item → Toml
  | .value v => v
  | .table _ members => .table (memberValues members)
  | .tables items => .array (tableValues items)

/-- The values of members. -/
def memberValues : List (String × Item) → List (String × Toml)
  | [] => []
  | (key, item) :: rest => (key, toValue item) :: memberValues rest

/-- The values of tables. -/
def tableValues : List (List (String × Item)) → List Toml
  | [] => []
  | members :: rest => .table (memberValues members) :: tableValues rest

end

end Item

/-- A table that is being built. -/
structure Table where
  origin : Origin
  members : List (String × Item)

namespace Table

def empty : Table := ⟨.header, []⟩

def get? (t : Table) (key : String) : Option Item :=
  t.members.lookup key

def push (t : Table) (key : String) (item : Item) : Table :=
  { t with members := t.members ++ [(key, item)] }

def replace (t : Table) (key : String) (item : Item) : Table :=
  { t with members := t.members.map fun member => if member.1 = key then (key, item) else member }

def toValue (t : Table) : Toml :=
  (Item.table t.origin t.members).toValue

/-- Changes the table that a path leads to; `passing` says how tables on the way come about that
are not there. The last of several tables of one name is meant. A dotted key passes no table that has a
header, and no path passes a finished value. -/
def changeAt (passing : Origin) (change : Table → Option Table) : List String → Table → Option Table
  | [], t => change t
  | key :: path, t =>
    match t.get? key with
    | none =>
      (changeAt passing change path ⟨passing, []⟩).map fun u => t.push key (.table u.origin u.members)
    | some (.value _) => none
    | some (.table origin members) =>
      if passing = .dotted ∧ origin = .header then none
      else
        (changeAt passing change path ⟨origin, members⟩).map fun u =>
          t.replace key (.table u.origin u.members)
    | some (.tables items) =>
      match items.getLast? with
      | none => none
      | some last =>
        (changeAt passing change path ⟨.header, last⟩).map fun u =>
          t.replace key (.tables (items.dropLast ++ [u.members]))

/-- Writes a new member. Only a dotted key writes into a table made by dotted keys, and it writes
into no other. -/
def write (dotted : Bool) (key : String) (item : Item) (t : Table) : Option Table :=
  if decide (t.origin = .dotted) ≠ dotted ∨ (t.get? key).isSome then none else some (t.push key item)

/-- Assigns a value to a key, which may be dotted. -/
def assign (path : List String) (key : String) (v : Toml) (t : Table) : Option Table :=
  changeAt .dotted (write (!path.isEmpty) key (.value v)) path t

/-- Gives a table its header: it is new, or was passed by headers alone. -/
def openTable (path : List String) (key : String) (t : Table) : Option Table :=
  changeAt .implied (fun t =>
    match t.get? key with
    | none => some (t.push key (.table .header []))
    | some (.table .implied members) => some (t.replace key (.table .header members))
    | _ => none) path t

/-- Adds one more table to those of its name. -/
def openNext (path : List String) (key : String) (t : Table) : Option Table :=
  changeAt .implied (fun t =>
    match t.get? key with
    | none => some (t.push key (.tables [[]]))
    | some (.tables items) => some (t.replace key (.tables (items ++ [[]])))
    | _ => none) path t

end Table

end MonitorExport.Toml
