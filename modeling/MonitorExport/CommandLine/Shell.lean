import MonitorExport.CommandLine.Command
import MonitorExport.CommandLine.Paint
import MonitorExport.CommandLine.Table
import MonitorExport.Json
import MonitorExport.Sender.Frame

/-!
What a command uses of the machine that it runs on, and how it talks to people: notices go to the error
output, data and its headings to the output.
-/

namespace MonitorExport.CommandLine

/-- Why a file operation fails. -/
inductive FileFault where
  | missing
  | occupied
  | notDirectory
  | isDirectory
deriving DecidableEq

/-- The reason as the machine tells it. -/
def FileFault.message : FileFault → String
  | missing => "No such file or directory (os error 2)"
  | occupied => "File exists (os error 17)"
  | notDirectory => "Not a directory (os error 20)"
  | isDirectory => "Is a directory (os error 21)"

/-- What a command uses of the machine that it runs on. A file operation that fails tells why. -/
structure Shell (m : Type → Type) where
  /-- The value of an environment variable. -/
  lookupVariable : String → m (Option String)
  workingDirectory : m String
  isTerminal : m Bool
  hasFile : String → m Bool
  readFile : String → m (Except String String)
  writeFile : String → String → m (Except String Unit)
  /-- Makes a directory and those above it, unless they are there. -/
  makeDirectories : String → m (Except String Unit)
  /-- The seconds since the start of 1970, and the nanoseconds of the current one. -/
  clock : m (Int × Nat)
  /-- Sends a packet to an address, within a number of seconds, and returns all that comes back. -/
  transmit : String → Nat → Bytes → m (Except String Bytes)
  output : String → m Unit
  errorOutput : String → m Unit

/-- What a notice says about the progress of a command. -/
inductive Notice where
  | success
  | failure
  | warning
  | information
  /-- Shown on request only. -/
  | detail
deriving DecidableEq

namespace Notice

/-- The sign in front of a notice. -/
def icon : Notice → String
  | success => "✓"
  | failure => "✗"
  | warning => "⚠"
  | information => "ℹ"
  | detail => "→"

/-- The colour of a notice. -/
def color : Notice → Color
  | success => .green
  | failure => .red
  | warning => .yellow
  | information => .blue
  | detail => .brightBlack

/-- Whether a notice is shown. Failures always are. -/
def isShown (o : Options) : Notice → Bool
  | failure => true
  | detail => o.verbose && !o.quiet
  | _ => !o.quiet

end Notice

/-- Data in the forms in which it can be shown. -/
structure Listing where
  json : Json
  table : Table
  line : String

/-- A shell with the options of a command, and whether texts are painted. -/
structure Console (m : Type → Type) where
  shell : Shell m
  options : Options
  colored : Bool

namespace Console

variable {m : Type → Type} [Monad m]

def isOn (v : String) : Bool :=
  v ≠ "0"

/-- Whether texts are painted: if it is forced, else if the output is a terminal and it is not turned
off. -/
def wantsColor (shell : Shell m) : m Bool := do
  let forced ← shell.lookupVariable "CLICOLOR_FORCE"
  let refused ← shell.lookupVariable "NO_COLOR"
  let wanted ← shell.lookupVariable "CLICOLOR"
  let terminal ← shell.isTerminal
  if (forced.map isOn).getD false then return true
  else if refused.isSome then return false
  else return terminal && (wanted.map isOn).getD true

/-- A text, painted if texts are. -/
def paint (c : Console m) (p : Paint) (s : String) : String :=
  if c.colored && !c.options.plain then p.apply s else s

def print (c : Console m) (s : String) : m Unit :=
  c.shell.output (s ++ "\n")

/-- Gives a notice. -/
def notify (c : Console m) (n : Notice) (message : String) : m Unit := do
  if n.isShown c.options then
    let p := Paint.plain n.color
    c.shell.errorOutput (c.paint p n.icon ++ " " ++ c.paint p message ++ "\n")

def decorates (c : Console m) : Bool :=
  !c.options.quiet && c.options.format ≠ .json

/-- Writes a heading after an empty line, underlined where there are no colours. -/
def heading (c : Console m) (s : String) : m Unit := do
  if c.decorates then
    if c.options.plain then
      c.print ("\n" ++ s ++ "\n" ++ String.ofList (List.replicate s.length '='))
    else
      c.print ("\n" ++ c.paint (.strong .brightBlue) s)

/-- Writes a key with its value. -/
def entry (c : Console m) (key value : String) : m Unit := do
  if c.decorates then
    c.print (c.paint (.strong .brightCyan) key ++ ": " ++ c.paint (.plain .white) value)

/-- Writes an item of a list. -/
def bullet (c : Console m) (s : String) : m Unit := do
  if c.decorates then
    c.print ("  " ++ c.paint (.plain .brightBlack) "•" ++ " " ++ s)

def border (c : Console m) : Border :=
  if c.options.plain then Border.ascii else Border.boxes

/-- Shows data in the form that is asked for. -/
def display (c : Console m) (l : Listing) : m Unit := do
  if !c.options.quiet then
    c.print <| match c.options.format with
      | .json => l.json.pretty
      | .table => l.table.text c.border
      | .compact => l.line

end Console

end MonitorExport.CommandLine
