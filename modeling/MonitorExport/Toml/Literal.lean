import MonitorExport.Decimal.Reading
import MonitorExport.Json.Term
import MonitorExport.Toml.Value

/-!
Strings, numbers, dates and times as they are written in TOML. Every reader takes a literal from the
front of a text and returns the text after it. Line ends are single newlines.
-/

namespace MonitorExport.Toml

abbrev Reader (α : Type) := List Char → Option (α × List Char)

def isBlank (c : Char) : Bool :=
  c = ' ' || c = '\t'

/-- Whether a character may stand in a comment or, if it delimits nothing there, in a string. -/
def isPlain (c : Char) : Bool :=
  c = '\t' || (0x20 ≤ c.toNat && c.toNat ≠ 0x7F)

/-! ### Strings -/

/-- The character that a letter after a backslash stands for. -/
def escape? : Char → Option Char
  | 'b' => some '\x08'
  | 't' => some '\t'
  | 'n' => some '\n'
  | 'f' => some '\x0c'
  | 'r' => some '\r'
  | '"' => some '"'
  | '\\' => some '\\'
  | _ => none

/-- The character with the code point that hexadecimal digits write. -/
def codePoint? (digits : List Char) : Option Char :=
  match digits.mapM Json.Term.hex? with
  | none => none
  | some ds =>
    let n := ds.foldl (fun n d => 16 * n + d) 0
    if n < 0xD800 ∨ (0xDFFF < n ∧ n < 0x110000) then some (Char.ofNat n) else none

/-- Reads a string between double quotes whose opening quote was read. -/
def readBasic : Reader (List Char)
  | [] => none
  | '"' :: rest => some ([], rest)
  | '\\' :: 'u' :: a :: b :: c :: d :: rest =>
    match codePoint? [a, b, c, d], readBasic rest with
    | some x, some (cs, rest) => some (x :: cs, rest)
    | _, _ => none
  | '\\' :: 'U' :: a :: b :: c :: d :: e :: f :: g :: h :: rest =>
    match codePoint? [a, b, c, d, e, f, g, h], readBasic rest with
    | some x, some (cs, rest) => some (x :: cs, rest)
    | _, _ => none
  | '\\' :: c :: rest =>
    match escape? c, readBasic rest with
    | some x, some (cs, rest) => some (x :: cs, rest)
    | _, _ => none
  | c :: rest =>
    if isPlain c && c ≠ '\\' then (readBasic rest).map fun (cs, rest) => (c :: cs, rest) else none

/-- What a backslash at the end of a line does to the text after it. -/
inductive Folding where
  | none
  /-- Only blanks may stand before the end of the line. -/
  | pending
  /-- Blanks and newlines are dropped. -/
  | dropping
deriving DecidableEq

/-- Reads a string of several lines between three double quotes each, of which the opening ones were
read. One or two more quotes may stand before the closing ones. -/
def readBasicLines (folding : Folding) : Reader (List Char)
  | [] => none
  | c :: rest =>
    if folding = .pending then
      if c = '\n' then readBasicLines .dropping rest
      else if isBlank c then readBasicLines .pending rest
      else none
    else if folding = .dropping ∧ (c = '\n' ∨ isBlank c = true) then readBasicLines .dropping rest
    else if c = '"' then
      match rest with
      | '"' :: '"' :: '"' :: '"' :: rest => some (['"', '"'], rest)
      | '"' :: '"' :: '"' :: rest => some (['"'], rest)
      | '"' :: '"' :: rest => some ([], rest)
      | rest => (readBasicLines .none rest).map fun (cs, rest) => (c :: cs, rest)
    else if c = '\\' then
      match rest with
      | 'u' :: a :: b :: c :: d :: rest =>
        match codePoint? [a, b, c, d], readBasicLines .none rest with
        | some x, some (cs, rest) => some (x :: cs, rest)
        | _, _ => none
      | 'U' :: a :: b :: c :: d :: e :: f :: g :: h :: rest =>
        match codePoint? [a, b, c, d, e, f, g, h], readBasicLines .none rest with
        | some x, some (cs, rest) => some (x :: cs, rest)
        | _, _ => none
      | e :: rest =>
        if e = '\n' then readBasicLines .dropping rest
        else if isBlank e then readBasicLines .pending rest
        else
          match escape? e, readBasicLines .none rest with
          | some x, some (cs, rest) => some (x :: cs, rest)
          | _, _ => none
      | [] => none
    else if isPlain c || c = '\n' then
      (readBasicLines .none rest).map fun (cs, rest) => (c :: cs, rest)
    else none

/-- Reads a string between single quotes whose opening quote was read. -/
def readLiteral : Reader (List Char)
  | [] => none
  | c :: rest =>
    if c = '\'' then some ([], rest)
    else if isPlain c then (readLiteral rest).map fun (cs, rest) => (c :: cs, rest)
    else none

/-- Reads a string of several lines between three single quotes each, of which the opening ones were
read. One or two more quotes may stand before the closing ones. -/
def readLiteralLines : Reader (List Char)
  | [] => none
  | '\'' :: '\'' :: '\'' :: '\'' :: '\'' :: rest => some (['\'', '\''], rest)
  | '\'' :: '\'' :: '\'' :: '\'' :: rest => some (['\''], rest)
  | '\'' :: '\'' :: '\'' :: rest => some ([], rest)
  | c :: rest =>
    if isPlain c || c = '\n' then (readLiteralLines rest).map fun (cs, rest) => (c :: cs, rest)
    else none

/-- The text without a newline in front. -/
def dropNewline : List Char → List Char
  | '\n' :: rest => rest
  | cs => cs

/-- Reads a string of any kind. -/
def readString : Reader String
  | '"' :: '"' :: '"' :: rest =>
    (readBasicLines .none (dropNewline rest)).map fun (cs, rest) => (String.ofList cs, rest)
  | '\'' :: '\'' :: '\'' :: rest =>
    (readLiteralLines (dropNewline rest)).map fun (cs, rest) => (String.ofList cs, rest)
  | '"' :: rest => (readBasic rest).map fun (cs, rest) => (String.ofList cs, rest)
  | '\'' :: rest => (readLiteral rest).map fun (cs, rest) => (String.ofList cs, rest)
  | _ => none

/-! ### Numbers -/

/-- Reads digits of a kind, perhaps none, with single underscores between them. The result leaves the
underscores out. An underscore that stands elsewhere is not read. -/
def readDigits (isDigit : Char → Bool) : List Char → List Char × List Char
  | [] => ([], [])
  | c :: rest =>
    if isDigit c then
      match rest with
      | '_' :: d :: more =>
        if isDigit d then
          let (ds, rest) := readDigits isDigit (d :: more)
          (c :: ds, rest)
        else ([c], rest)
      | rest =>
        let (ds, rest) := readDigits isDigit rest
        (c :: ds, rest)
    else ([], c :: rest)

/-- Reads a sign, perhaps none. -/
def readSign : List Char → List Char × List Char
  | '-' :: rest => (['-'], rest)
  | '+' :: rest => (['+'], rest)
  | cs => ([], cs)

/-- Reads a whole part: a sign and digits without superfluous zeros. -/
def readWhole : Reader (List Char) := fun cs =>
  let (sign, cs) := readSign cs
  match cs with
  | '0' :: rest => some (sign ++ ['0'], rest)
  | cs =>
    match readDigits Char.isDigit cs with
    | ([], _) => none
    | (ds, rest) => some (sign ++ ds, rest)

/-- Reads an exponent: a mark, a sign and digits. -/
def readExponent : Reader (List Char)
  | c :: rest =>
    if c = 'e' ∨ c = 'E' then
      let (sign, rest) := readSign rest
      match readDigits Char.isDigit rest with
      | ([], _) => none
      | (ds, rest) => some (c :: sign ++ ds, rest)
    else none
  | [] => none

/-- Reads a point and digits. -/
def readFraction : Reader (List Char)
  | '.' :: rest =>
    match readDigits Char.isDigit rest with
    | ([], _) => none
    | (ds, rest) => some ('.' :: ds, rest)
  | _ => none

/-- Reads infinity or no number, with a sign. -/
def readSpecial : Reader Float := fun cs =>
  let (sign, cs) := readSign cs
  let signed (x : Float) := if sign = ['-'] then -x else x
  match cs with
  | 'i' :: 'n' :: 'f' :: rest => some (signed (1.0 / 0.0), rest)
  | 'n' :: 'a' :: 'n' :: rest => some (signed (0.0 / 0.0), rest)
  | _ => none

/-- The float that the characters of a decimal write. Positive ones must not be too large. -/
def toFloat (cs : List Char) (rest : List Char) : Option (Float × List Char) :=
  match Decimal.read (String.ofList cs) with
  | some x => if x == 1.0 / 0.0 then none else some (x, rest)
  | none => none

/-- Reads a float: a whole part with a fraction, an exponent or both, or a special one. -/
def readFloat : Reader Float := fun cs =>
  match readWhole cs with
  | none => readSpecial cs
  | some (whole, rest) =>
    match readFraction rest with
    | some (fraction, rest) =>
      match readExponent rest with
      | some (exponent, rest) => toFloat (whole ++ fraction ++ exponent) rest
      | none => toFloat (whole ++ fraction) rest
    | none =>
      match readExponent rest with
      | some (exponent, rest) => toFloat (whole ++ exponent) rest
      | none => none

/-- Reads the digits of a number to a base other than ten. It must fit 64 bits with sign. -/
def readBased (base : Nat) : Reader Int := fun cs =>
  let isDigit (c : Char) : Bool := ((Json.Term.hex? c).map fun d => decide (d < base)).getD false
  match readDigits isDigit cs with
  | ([], _) => none
  | (ds, rest) =>
    let n : Int := ds.foldl (fun n c => base * n + ((Json.Term.hex? c).getD 0 : Nat)) 0
    if n ≤ Text.int64Max then some (n, rest) else none

/-- Reads an integer of 64 bits. -/
def readInteger : Reader Int
  | '0' :: 'x' :: rest => readBased 16 rest
  | '0' :: 'o' :: rest => readBased 8 rest
  | '0' :: 'b' :: rest => readBased 2 rest
  | cs =>
    match readWhole cs with
    | none => none
    | some (whole, rest) => (Text.readInt64 whole).map (·, rest)

/-! ### Dates and times -/

/-- Reads a number of two digits between bounds. -/
def readTwo (least greatest : Nat) : Reader Nat
  | a :: b :: rest =>
    match Text.readDigits [a, b] with
    | some n => if least ≤ n ∧ n ≤ greatest then some (n, rest) else none
    | none => none
  | _ => none

/-- Reads one of some characters. -/
def readMark (marks : List Char) : Reader Unit
  | c :: rest => if c ∈ marks then some ((), rest) else none
  | [] => none

/-- The days of a month. -/
def daysIn (year month : Nat) : Nat :=
  let leap := year % 4 = 0 ∧ (year % 100 ≠ 0 ∨ year % 400 = 0)
  if month = 2 then (if leap then 29 else 28) else if month ∈ [4, 6, 9, 11] then 30 else 31

/-- Reads a date. -/
def readDate : Reader Unit
  | a :: b :: c :: d :: rest => do
    let year ← Text.readDigits [a, b, c, d]
    let (_, rest) ← readMark ['-'] rest
    let (month, rest) ← readTwo 1 12 rest
    let (_, rest) ← readMark ['-'] rest
    let (_, rest) ← readTwo 1 (daysIn year month) rest
    return ((), rest)
  | _ => none

/-- Reads a time of day. -/
def readTime : Reader Unit := fun cs => do
  let (_, rest) ← readTwo 0 23 cs
  let (_, rest) ← readMark [':'] rest
  let (_, rest) ← readTwo 0 59 rest
  let (_, rest) ← readMark [':'] rest
  let (_, rest) ← readTwo 0 60 rest
  match rest with
  | '.' :: more =>
    if (more.takeWhile Char.isDigit).isEmpty then none else some ((), more.dropWhile Char.isDigit)
  | rest => some ((), rest)

/-- The text after the difference to the universal time, if one is written. -/
def dropOffset (cs : List Char) : List Char :=
  let offset : Option (Unit × List Char) := do
    let (_, rest) ← readMark ['+', '-'] cs
    let (_, rest) ← readTwo 0 23 rest
    let (_, rest) ← readMark [':'] rest
    let (_, rest) ← readTwo 0 59 rest
    return ((), rest)
  match readMark ['Z', 'z'] cs <|> offset with
  | some (_, rest) => rest
  | none => cs

/-- The text after a date, a time of day, or both. -/
def afterMoment? (cs : List Char) : Option (List Char) :=
  match readDate cs with
  | none => (readTime cs).map (·.2)
  | some (_, rest) =>
    match readMark ['T', 't', ' '] rest with
    | none => some rest
    | some (_, more) =>
      match readTime more with
      | some (_, more) => some (dropOffset more)
      | none => some rest

/-- Reads a date, a time of day, or both. -/
def readMoment : Reader Toml := fun cs =>
  (afterMoment? cs).map fun rest => (.time (String.ofList (cs.take (cs.length - rest.length))), rest)

/-- Reads a value that is written as one word or string. -/
def readScalar : Reader Toml := fun cs =>
  match cs with
  | 't' :: 'r' :: 'u' :: 'e' :: rest => some (.bool true, rest)
  | 'f' :: 'a' :: 'l' :: 's' :: 'e' :: rest => some (.bool false, rest)
  | cs =>
    match readString cs with
    | some (s, rest) => some (.str s, rest)
    | none =>
      match readMoment cs with
      | some found => some found
      | none =>
        match readFloat cs with
        | some (x, rest) => some (.float x, rest)
        | none => (readInteger cs).map fun (n, rest) => (.int n, rest)

end MonitorExport.Toml
