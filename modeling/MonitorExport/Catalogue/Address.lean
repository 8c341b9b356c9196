import MonitorExport.Schema.Model
import MonitorExport.Text.Split

/-!
Addresses of interfaces: a host with an optional port, where the host is an IP literal, perhaps in
brackets, or a name.
-/

namespace MonitorExport.Address

/-- A number from 0 to 255 in at most three digits, without superfluous zeros. -/
def isOctet (cs : List Char) : Bool :=
  cs.length ≤ 3 && (cs.head? ≠ some '0' || cs.length = 1) &&
    match Text.readDigits cs with
    | some n => n ≤ 255
    | none => false

/-- Four octets separated by points. -/
def isIPv4 (cs : List Char) : Bool :=
  let parts := Text.splitAt (· = '.') cs
  parts.length = 4 && parts.all isOctet

def isHexDigit (c : Char) : Bool :=
  c.isDigit || ('a' ≤ c && c ≤ 'f') || ('A' ≤ c && c ≤ 'F')

def isGroup (cs : List Char) : Bool :=
  0 < cs.length && cs.length ≤ 4 && cs.all isHexDigit

/-- How many groups the parts are. The last part may be an IPv4 literal, which counts as two. -/
def countGroups (embedded : Bool) : List (List Char) → Option Nat
  | [] => some 0
  | [part] => if isGroup part then some 1 else if embedded && isIPv4 part then some 2 else none
  | part :: rest => if isGroup part then (countGroups embedded rest).map (· + 1) else none

/-- How many groups a text is, separated by colons. -/
def groups (embedded : Bool) (cs : List Char) : Option Nat :=
  if cs = [] then some 0 else countGroups embedded (Text.splitAt (· = ':') cs)

/-- What stands before and after the first two colons in a row. -/
def splitGap : List Char → Option (List Char × List Char)
  | ':' :: ':' :: rest => some ([], rest)
  | c :: rest => (splitGap rest).map fun (head, tail) => (c :: head, tail)
  | [] => none

/-- Eight groups, or fewer with one gap. -/
def isIPv6 (cs : List Char) : Bool :=
  match splitGap cs with
  | none => groups true cs = some 8
  | some (head, tail) =>
    match groups false head, groups true tail with
    | some h, some t => h + t ≤ 7
    | _, _ => false

def isLiteral (cs : List Char) : Bool :=
  isIPv4 cs || isIPv6 cs

/-- The host and the port of an address in brackets, with nothing for no port. -/
def splitBracketed (cs : List Char) : Option (List Char × Option (List Char)) :=
  match cs with
  | '[' :: inner =>
    (Text.splitFirst ']' inner).map fun (host, rest) =>
      match rest with
      | ':' :: port => (host, some port)
      | _ => (host, none)
  | _ => none

/-- The host and the port of an address. A bare IP literal has no port; otherwise brackets end the
host, or the last colon does. -/
def split (cs : List Char) : List Char × Option (List Char) :=
  if isLiteral cs then (cs, none) else
  match splitBracketed cs with
  | some parts => parts
  | none =>
    match Text.splitLast ':' cs with
    | some (host, port) => (host, some port)
    | none => (cs, none)

def failure (reason : ValidationError) : ConfigError :=
  .invalidValue "Interface" "ident" reason

/-- The input for the port: its number, or the empty text if there is none. -/
def portInput : Option (List Char) → Except ConfigError Input
  | none => .ok (.text "")
  | some port =>
    match Text.readInt64 port with
    | some n => .ok (.int n)
    | none => .error (failure (.notPort (String.ofList port)))

/-- Sets the fields that an address stands for, where they are not given. A host that is an IP literal
goes to `ip` and any other to `dns`; the IP is used unless there is a name. -/
def expandText (address : String) (fields : Fields) : Except ConfigError Fields := do
  let (host, port) := split address.toList
  let port ← portInput port
  let name := String.ofList host
  let (ip, dns) := if host ≠ [] && isLiteral host then (name, "") else ("", name)
  let fields := ((fields.setDefault "ip" (.text ip)).setDefault "dns" (.text dns)).setDefault "port" port
  let named := match fields.get? "dns" with
    | some (.value v) => v.render ≠ ""
    | _ => false
  return fields.setDefault "useip" (.value (.bool !named))

/-- Expands the field `ident`, if it is given, into the fields that it stands for. -/
def expand : Preparation := fun view fields =>
  let rest := fields.erase "ident"
  match fields.get? "ident" with
  | none => .ok rest
  | some .null => expandText "" rest
  | some (.value v) => expandText v.render rest
  | some input => .error (failure (.notAddress (view.describeInput input)))

end MonitorExport.Address
