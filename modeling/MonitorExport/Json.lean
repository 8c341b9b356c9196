import MonitorExport.Decimal.Layout

/-!
JSON documents and their compact and indented texts. Objects are written in the order of their
members; a document that was read has them sorted by key.
-/

namespace MonitorExport

/-- A JSON document. -/
inductive Json where
  | null
  | bool (flag : Bool)
  | int (number : Int)
  | float (number : Float)
  | str (characters : String)
  | arr (items : List Json)
  | obj (members : List (String × Json))

namespace Json

instance : Inhabited Json := ⟨.null⟩

def hexDigit (n : Nat) : Char :=
  Nat.digitChar (n % 16)

/-- The form of a character inside a JSON string: only quotes, backslashes and controls are escaped. -/
def escaped (c : Char) : List Char :=
  match c with
  | '"' => ['\\', '"']
  | '\\' => ['\\', '\\']
  | '\n' => ['\\', 'n']
  | '\r' => ['\\', 'r']
  | '\t' => ['\\', 't']
  | '\x08' => ['\\', 'b']
  | '\x0c' => ['\\', 'f']
  | c =>
    if c.toNat < 0x20 then ['\\', 'u', '0', '0', hexDigit (c.toNat / 16), hexDigit c.toNat] else [c]

def quote (s : String) : List Char :=
  '"' :: s.toList.flatMap escaped ++ ['"']

/-- The text of a document without children. -/
def leaf : Json → List Char
  | .null => "null".toList
  | .bool flag => (if flag then "true" else "false").toList
  | .int number => (toString number).toList
  | .float number => (Decimal.Layout.json.text number).toList
  | .str s => quote s
  | .arr _ => ['[', ']']
  | .obj _ => ['\x7b', '\x7d']

mutual

/-- The characters of a document without blanks. -/
def characters : Json → List Char
  | .arr items => '[' :: itemCharacters items ++ [']']
  | .obj members => '\x7b' :: memberCharacters members ++ ['\x7d']
  | j => leaf j

/-- Items separated by commas. -/
def itemCharacters : List Json → List Char
  | [] => []
  | [j] => characters j
  | j :: rest => characters j ++ ',' :: itemCharacters rest

/-- Members separated by commas. -/
def memberCharacters : List (String × Json) → List Char
  | [] => []
  | [(key, j)] => quote key ++ ':' :: characters j
  | (key, j) :: rest => quote key ++ ':' :: characters j ++ ',' :: memberCharacters rest

end

def compact (j : Json) : String :=
  String.ofList (characters j)

/-- A new line at a depth of nesting, two blanks for each level. -/
def newLine (depth : Nat) : List Char :=
  '\n' :: List.replicate (2 * depth) ' '

mutual

/-- The characters of a document with one line for each item and member. -/
def indented (depth : Nat) : Json → List Char
  | .arr (j :: rest) =>
    '[' :: newLine (depth + 1) ++ indented (depth + 1) j ++ indentedItems (depth + 1) rest
      ++ newLine depth ++ [']']
  | .obj ((key, j) :: rest) =>
    '\x7b' :: newLine (depth + 1) ++ quote key ++ ':' :: ' ' :: indented (depth + 1) j
      ++ indentedMembers (depth + 1) rest ++ newLine depth ++ ['\x7d']
  | j => leaf j

/-- The items after the first. -/
def indentedItems (depth : Nat) : List Json → List Char
  | [] => []
  | j :: rest => ',' :: newLine depth ++ indented depth j ++ indentedItems depth rest

/-- The members after the first. -/
def indentedMembers (depth : Nat) : List (String × Json) → List Char
  | [] => []
  | (key, j) :: rest =>
    ',' :: newLine depth ++ quote key ++ ':' :: ' ' :: indented depth j ++ indentedMembers depth rest

end

/-- The text of a document with one line for each item and member. -/
def pretty (j : Json) : String :=
  String.ofList (indented 0 j)

/-- A string, or null. -/
def strOrNull : Option String → Json
  | some s => .str s
  | none => .null

/-- The member of an object with the given key. -/
def get? (j : Json) (key : String) : Option Json :=
  match j with
  | .obj members => (members.find? fun member => member.1 = key).map (·.2)
  | _ => none

/-- The string that a document is. -/
def str? : Json → Option String
  | .str s => some s
  | _ => none

end Json

end MonitorExport
