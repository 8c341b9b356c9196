import MonitorExport.CommandLine.Arguments
import MonitorExport.Samples.Sample
import MonitorExport.Text.Digits

/-!
The commands of the program and the options that all of them share.
-/

namespace MonitorExport.CommandLine

/-- The form in which data is shown. -/
inductive Format where
  | table
  | json
  | compact
deriving DecidableEq

namespace Format

def names : List (String × Format) :=
  [("table", table), ("json", json), ("compact", compact)]

def ofName? (name : String) : Option Format :=
  names.lookup name

end Format

/-- Options that all commands share. -/
structure Options where
  format : Format
  config : Option String
  quiet : Bool
  verbose : Bool
  /-- Neither colours nor characters beyond ASCII for lines. -/
  plain : Bool

/-- Where a rendered document goes. -/
inductive Target where
  | output
  | file (path : String)
  /-- The fragments of the document, one after the other. -/
  | fragments
  /-- A file for each fragment. -/
  | directory (path : String)
deriving DecidableEq

/-- A command. -/
inductive Command where
  | render (sample : Sample) (target : Target)
  | listModels
  | showModel (name : String)
  | rules
  | config
  | send (key value : String) (host server : Option String) (timeout : Nat)
deriving DecidableEq

/-- What the program is asked to do. -/
structure Invocation where
  options : Options
  command : Command

namespace Invocation

/-- The option for help, which every command has. -/
def helpFlag : Flag := .switch "help" (some 'h')

def commonFlags : List Flag :=
  [.path "config", helpFlag]

def anyText : String → Bool := fun _ => true

/-- The arguments of the command that renders a sample document. -/
def renderGrammar : Grammar :=
  .node ([.switch "split" none, .path "output-file", .path "output-dir"] ++ commonFlags)
    [fun name => (Sample.ofName? name).isSome] []

/-- The arguments of the commands on the models. -/
def schemaGrammar : Grammar :=
  .node commonFlags [] [
    ("list", .node commonFlags [] []),
    ("show", .node commonFlags [anyText] [])]

/-- The arguments of the command that sends a value. -/
def sendGrammar : Grammar :=
  .node ([.text "host", .text "server",
      ⟨"timeout", none, some fun v => (Text.readNat64 v.toList).isSome⟩] ++ commonFlags)
    [anyText, anyText] []

/-- The arguments of the program. -/
def grammar : Grammar :=
  .node ([⟨"output", none, some fun v => (Format.ofName? v).isSome⟩, .switch "quiet" (some 'q'),
      .switch "verbose" (some 'v'), .switch "no-color" none, .switch "version" (some 'V')]
      ++ commonFlags)
    [] [
      ("render", renderGrammar),
      ("schema", schemaGrammar),
      ("rules", .node commonFlags [] []),
      ("config", .node commonFlags [] []),
      ("send", sendGrammar)]

/-- The target of a rendered document. Fragments go to no single file, and only they go to a
directory. -/
def target? (g : Given) : Option Target :=
  match g.has "split", g.option? "output-file", g.option? "output-dir" with
  | false, none, none => some .output
  | false, some path, none => some (.file path)
  | true, none, none => some .fragments
  | true, none, some path => some (.directory path)
  | _, _, _ => none

/-- The timeout of connections in seconds, if none is given. -/
def standardTimeout : Nat := 10

/-- The command that arguments give. -/
def command? (g : Given) : Option Command :=
  match g.commands, g.operands with
  | ["render"], [name] =>
    match Sample.ofName? name, target? g with
    | some sample, some target => some (.render sample target)
    | _, _ => none
  | ["schema", "list"], [] => some .listModels
  | ["schema", "show"], [name] => some (.showModel name)
  | ["rules"], [] => some .rules
  | ["config"], [] => some .config
  | ["send"], [key, value] =>
    let timeout := ((g.option? "timeout").bind fun v => Text.readNat64 v.toList).getD standardTimeout
    some (.send key value (g.option? "host") (g.option? "server") timeout)
  | _, _ => none

/-- The options that arguments give. -/
def optionsOf (g : Given) : Options where
  format := ((g.option? "output").bind Format.ofName?).getD .table
  config := g.option? "config"
  quiet := g.has "quiet"
  verbose := g.has "verbose"
  plain := g.has "no-color"

/-- Reads the arguments of the program. -/
def ofArguments (arguments : List String) : Except Refusal Invocation :=
  match grammar.read arguments with
  | .error refusal => .error refusal
  | .ok given =>
    match command? given with
    | some command => .ok ⟨optionsOf given, command⟩
    | none => .error .usage

end Invocation

end MonitorExport.CommandLine
