import MonitorExport.Toml.Layout
import MonitorExport.Toml.Literal

/-!
Reading TOML documents: values that nest, keys, headers, and the document line by line.
-/

namespace MonitorExport.Toml

/-- How deep arrays and inline tables may be nested, and how many parts a dotted key may have. -/
def nestingLimit : Nat := 79

def skipBlanks (cs : List Char) : List Char :=
  cs.dropWhile isBlank

def skipComment (cs : List Char) : List Char :=
  cs.dropWhile isPlain

/-- The text without blanks, newlines and comments in front. Every step drops a character, so
the length of the text is `fuel` enough. -/
def skipLines : Nat → List Char → List Char
  | 0, cs => cs
  | fuel + 1, cs =>
    match skipBlanks cs with
    | '\n' :: rest => skipLines fuel rest
    | '#' :: rest =>
      match skipComment rest with
      | '\n' :: rest => skipLines fuel rest
      | rest => rest
    | rest => rest

def isBare (c : Char) : Bool :=
  c.isAlphanum || c = '_' || c = '-'

/-- Reads a key without dots. -/
def readSimpleKey : Reader String
  | '"' :: rest => (readBasic rest).map fun (cs, rest) => (String.ofList cs, rest)
  | '\'' :: rest => (readLiteral rest).map fun (cs, rest) => (String.ofList cs, rest)
  | cs =>
    match cs.takeWhile isBare with
    | [] => none
    | key => some (String.ofList key, cs.dropWhile isBare)

/-- Reads the parts of a key, at most `fuel` of them, and the blanks around them. -/
def readParts : Nat → Reader (List String)
  | 0, _ => none
  | fuel + 1, cs =>
    match readSimpleKey (skipBlanks cs) with
    | none => none
    | some (key, rest) =>
      match skipBlanks rest with
      | '.' :: rest => (readParts fuel rest).map fun (keys, rest) => (key :: keys, rest)
      | rest => some ([key], rest)

/-- Reads a key: the path that its dots separate, and its last part. -/
def readKey : Reader (List String × String) := fun cs =>
  match readParts nestingLimit cs with
  | some (keys, rest) => keys.getLast?.map fun key => ((keys.dropLast, key), rest)
  | none => none

mutual

/-- Reads a value in which others are nested at most `depth` deep. -/
def readValue : Nat → Nat → Reader Toml
  | 0, _, _ => none
  | fuel + 1, depth, cs =>
    match cs with
    | '[' :: rest =>
      if depth = 0 then none
      else (readItems fuel (depth - 1) rest).map fun (items, rest) => (.array items, rest)
    | '\x7b' :: rest =>
      if depth = 0 then none else
      match skipBlanks rest with
      | '\x7d' :: rest => some (.table [], rest)
      | rest => (readMembers fuel (depth - 1) .empty rest).map fun (t, rest) => (t.toValue, rest)
    | cs => readScalar cs

/-- Reads the items of an array and its closing bracket. A comma may stand after the last item. -/
def readItems : Nat → Nat → Reader (List Toml)
  | 0, _, _ => none
  | fuel + 1, depth, cs =>
    match skipLines cs.length cs with
    | ']' :: rest => some ([], rest)
    | cs =>
      match readValue fuel depth cs with
      | none => none
      | some (item, rest) =>
        match skipLines rest.length rest with
        | ']' :: rest => some ([item], rest)
        | ',' :: rest => (readItems fuel depth rest).map fun (items, rest) => (item :: items, rest)
        | _ => none

/-- Reads the members of an inline table into a table, and its closing brace. -/
def readMembers : Nat → Nat → Table → Reader Table
  | 0, _, _, _ => none
  | fuel + 1, depth, t, cs =>
    match readKey cs with
    | some ((path, key), '=' :: rest) =>
      match readValue fuel depth (skipBlanks rest) with
      | none => none
      | some (v, rest) =>
        match t.assign path key v with
        | none => none
        | some t =>
          match skipBlanks rest with
          | '\x7d' :: rest => some (t, rest)
          | ',' :: rest => readMembers fuel depth t rest
          | _ => none
    | _ => none

end

/-- The text after the end of a line, with blanks and perhaps a comment before it. -/
def endLine (cs : List Char) : Option (List Char) :=
  let rest := match skipBlanks cs with
    | '#' :: rest => skipComment rest
    | rest => rest
  match rest with
  | [] => some []
  | '\n' :: rest => some rest
  | _ => none

/-- A document that is being read: its tables, and the path of the one that is written to. -/
structure Draft where
  root : Table
  current : List String

namespace Draft

def assign (d : Draft) (path : List String) (key : String) (v : Toml) : Option Draft :=
  (d.root.changeAt .implied (Table.assign path key v) d.current).map fun root => { d with root }

def openTable (d : Draft) (path : List String) (key : String) : Option Draft :=
  (d.root.openTable path key).map fun root => ⟨root, path ++ [key]⟩

def openNext (d : Draft) (path : List String) (key : String) : Option Draft :=
  (d.root.openNext path key).map fun root => ⟨root, path ++ [key]⟩

/-- Reads one line, or the lines of one assignment. -/
def readLine (d : Draft) (cs : List Char) : Option (Draft × List Char) :=
  match skipBlanks cs with
  | [] => some (d, [])
  | '\n' :: rest => some (d, rest)
  | '#' :: rest => (endLine ('#' :: rest)).map (d, ·)
  | '[' :: '[' :: rest =>
    match readKey rest with
    | some ((path, key), ']' :: ']' :: rest) =>
      match d.openNext path key, endLine rest with
      | some d, some rest => some (d, rest)
      | _, _ => none
    | _ => none
  | '[' :: rest =>
    match readKey rest with
    | some ((path, key), ']' :: rest) =>
      match d.openTable path key, endLine rest with
      | some d, some rest => some (d, rest)
      | _, _ => none
    | _ => none
  | cs =>
    match readKey cs with
    | some ((path, key), '=' :: rest) =>
      match readValue (rest.length + 1) nestingLimit (skipBlanks rest) with
      | none => none
      | some (v, rest) =>
        match d.assign path key v, endLine rest with
        | some d, some rest => some (d, rest)
        | _, _ => none
    | _ => none

/-- Reads line after line. Every line but an empty last one has a character, so the length of the text
is `fuel` enough. -/
def readLines : Nat → Draft → List Char → Option Draft
  | 0, d, _ => some d
  | fuel + 1, d, cs =>
    match d.readLine cs with
    | none => none
    | some (d, []) => some d
    | some (d, rest) => readLines fuel d rest

end Draft

/-- The text with single newlines for line ends of two characters. -/
def normalLines : List Char → List Char
  | '\r' :: '\n' :: rest => '\n' :: normalLines rest
  | c :: rest => c :: normalLines rest
  | [] => []

/-- The text without a byte order mark in front. -/
def dropMark : List Char → List Char
  | '\ufeff' :: rest => rest
  | cs => cs

/-- Reads a document. -/
def read? (s : String) : Option Toml :=
  let cs := normalLines (dropMark s.toList)
  (Draft.readLines cs.length ⟨.empty, []⟩ cs).map fun d => d.root.toValue

end MonitorExport.Toml
