import MonitorExport.Json.Term

/-!
From terms to values. Documents have their objects sorted by key, the last of equal keys winning.
Records take their members by name, each at most once, or as an array in their declared order; what
they do not know they skip unread. Arrays and objects may be nested `Term.depthLimit` deep.
-/

namespace MonitorExport.Json

/-- Gives a key a value among members sorted by key. -/
def insertSorted (key : String) (value : Json) : List (String × Json) → List (String × Json)
  | [] => [(key, value)]
  | (k, v) :: rest =>
    if key < k then (key, value) :: (k, v) :: rest
    else if key = k then (key, value) :: rest
    else (k, v) :: insertSorted key value rest

/-- An object whose members are given in any order, the last of equal keys winning. -/
def objSorted (members : List (String × Json)) : Json :=
  .obj (members.foldl (fun sorted member => insertSorted member.1 member.2 sorted) [])

namespace Term

/-- How deep arrays and objects may be nested where they are read as values. -/
def depthLimit : Nat := 127

/-- The document of a number; nothing if it is too large. -/
def ofNumber : Number → Option Json
  | .int n => some (.int n)
  | .float x => some (.float x)
  | .tooLarge => none

mutual

/-- The document that a term is, at most `depth` deep. -/
def toJsonWithin (depth : Nat) : Term → Option Json
  | .null => some .null
  | .bool flag => some (.bool flag)
  | .number n => ofNumber n
  | .str s => s.map .str
  | .arr items => if depth = 0 then none else (itemsWithin (depth - 1) items).map .arr
  | .obj members => if depth = 0 then none else (membersWithin (depth - 1) members).map objSorted

/-- The documents of items. -/
def itemsWithin (depth : Nat) : List Term → Option (List Json)
  | [] => some []
  | t :: rest =>
    match toJsonWithin depth t, itemsWithin depth rest with
    | some j, some js => some (j :: js)
    | _, _ => none

/-- The documents of members, with their keys. -/
def membersWithin (depth : Nat) : List (Option String × Term) → Option (List (String × Json))
  | [] => some []
  | (key, t) :: rest =>
    match key, toJsonWithin depth t, membersWithin depth rest with
    | some key, some j, some js => some ((key, j) :: js)
    | _, _, _ => none

end

def toJson? (t : Term) : Option Json :=
  toJsonWithin depthLimit t

/-- What a record was given for its declared members, in their order: nothing for one left out. Fails
on a term that is no record, a member given twice, a key that is no text, and on more items than
members. -/
def record? (declared : List String) : Term → Option (List (Option Term))
  | .arr items =>
    if items.length ≤ declared.length then
      some (items.map some ++ List.replicate (declared.length - items.length) none)
    else none
  | .obj members =>
    if members.all (fun member => member.1.isSome) then
      declared.mapM fun key =>
        match members.filter (fun member => member.1 = some key) with
        | [] => some none
        | [member] => some (some member.2)
        | _ => none
    else none
  | _ => none

/-- The text that a term is. -/
def text? : Term → Option String
  | .str s => s
  | _ => none

/-- What is given for a member that may be left out or null. -/
def given : Option Term → Option Term
  | some .null => none
  | given => given

end Term

def read? (s : String) : Option Json :=
  (Term.read? s).bind Term.toJson?

end MonitorExport.Json
