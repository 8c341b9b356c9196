import MonitorExport.Catalogue.Standard
import MonitorExport.CommandLine.Listings
import MonitorExport.Sender.Exchange

/-!
Running a command on a shell. A command that fails says why in one sentence, from the outermost cause to the
innermost.
-/

namespace MonitorExport.CommandLine

/-- A step of a command. A failure is the sentence that tells it. -/
abbrev Running (m : Type → Type) := ExceptT String m

/-- Settings and the path of the file that they are from. -/
structure Project where
  file : Option String
  settings : Settings

def joinPath (directory file : String) : String :=
  if directory.endsWith "/" then directory ++ file else directory ++ "/" ++ file

/-- A directory and those above it. -/
def directoriesAbove (directory : String) : List String :=
  let names := (Text.splitAt (· = '/') directory.toList).map String.ofList
  (List.range names.length).map fun i =>
    let path := "/".intercalate (names.take (names.length - i))
    if path.isEmpty then "/" else path

/-- The name of the file for a fragment: its number, its path and its name. Names are those of sample
documents, in ASCII; what is no letter, digit or hyphen becomes an underscore. -/
def fragmentFile (index : Nat) (f : Fragment) : String :=
  let kind := f.kind.path.map fun c => if c = '/' then '_' else c
  let name := f.name.map fun c => if c.isAlphanum || c = '-' then c else '_'
  Timestamp.padded 3 (index + 1) ++ "_" ++ kind ++ "_" ++ name ++ ".xml"

/-- A fragment as JSON. -/
def fragmentJson (indent : Nat) (f : Fragment) : Json :=
  .obj [("kind", .str f.kind.name), ("name", .str f.name), ("path", .str f.kind.path),
    ("xml", .str (Xml.document indent f.document))]

/-- Why an address of a server can not be one, if it can not: it is a host and a port. -/
def addressFault? (server : String) : Option String :=
  match Text.splitLast ':' server.toList with
  | none => some "invalid socket address"
  | some (_, port) =>
    match Text.readNat port with
    | some n => if n < 65536 then none else some "invalid port value"
    | none => some "invalid port value"

variable {m : Type → Type} [Monad m]

namespace Console

/-- Fails with the sentence of a context and a reason. -/
def orFail {α : Type} (context : String) (result : Except String α) : Running m α :=
  match result with
  | .ok a => pure a
  | .error reason => throw (context ++ ": " ++ reason)

/-- Reads the settings in a file. -/
def readSettings (c : Console m) (path : String) : Running m Project := do
  let text ← orFail ("Failed to read " ++ path) (← liftM (c.shell.readFile path))
  match Settings.read? text with
  | some settings => return ⟨some path, settings⟩
  | none => throw ("Failed to parse " ++ path ++ ": TOML parse error")

/-- The first of some files that is there. -/
def firstFile (c : Console m) : List String → m (Option String)
  | [] => return none
  | path :: rest => do
    if ← c.shell.hasFile path then return some path else c.firstFile rest

/-- Reads the settings of the project: those of the given file, else of the nearest one in the
working directory or above it, else the standard ones. -/
def loadProject (c : Console m) : Running m Project := do
  match c.options.config with
  | some path => c.readSettings path
  | none =>
    let directory ← liftM c.shell.workingDirectory
    match ← liftM (c.firstFile ((directoriesAbove directory).map (joinPath · Settings.fileName))) with
    | some path => c.readSettings path
    | none => return ⟨none, Settings.standard⟩

/-- An address in effect: the value of the environment variable that it names, if it names one. -/
def expand (c : Console m) (address : String) : m (Except String String) := do
  match Settings.placeholder? address with
  | none => return .ok address
  | some name =>
    match ← c.shell.lookupVariable name with
    | some value => return .ok value
    | none => return .error ("Environment variable " ++ name ++ " not set")

/-- An address in effect; warns if the variable that it names is not set, and leaves it as it is. -/
def expandOrWarn (c : Console m) (address : String) : m String := do
  match ← c.expand address with
  | .ok value => return value
  | .error reason => do
    c.notify .warning reason
    return address

def writeFile (c : Console m) (path contents : String) : Running m Unit := do
  orFail ("Failed to write " ++ path) (← liftM (c.shell.writeFile path contents))

/-- Writes fragments to files of a directory, numbered from `index`. -/
def writeFragments (c : Console m) (indent : Nat) (directory : String) (index : Nat) :
    List Fragment → Running m Unit
  | [] => return ()
  | f :: rest => do
    let path := joinPath directory (fragmentFile index f)
    c.writeFile path (Xml.document indent f.document)
    liftM (c.notify .detail ("📄 " ++ path))
    c.writeFragments indent directory (index + 1) rest

/-- Shows fragments one after the other, each after a notice. -/
def showFragments (c : Console m) (indent : Nat) : List Fragment → m Unit
  | [] => return ()
  | f :: rest => do
    c.notify .information ("xml for: " ++ f.kind.path ++ " " ++ f.name)
    c.shell.output (Xml.document indent f.document)
    c.showFragments indent rest

/-- Renders a sample document. -/
def render (c : Console m) (project : Project) (sample : Sample) (target : Target) :
    Running m Unit := do
  let (s, document) ← orFail ("Failed to build the '" ++ sample.name ++ "' example")
    (sample.build.mapError ConfigError.message)
  let (seconds, nanosecond) ← liftM c.shell.clock
  let compiler := project.settings.compiler (.ofSeconds seconds nanosecond)
  liftM (c.notify .detail
    ("Compiling with " ++ toString compiler.rules.size ++ " pruning rules"))
  let root ← orFail "Failed to compile document"
    ((compiler.compile s document).mapError ConfigError.message)
  let fragments := Fragment.split root
  let indent := compiler.indent
  match target with
  | .output => liftM (c.shell.output (Xml.document indent root))
  | .file path => do
    c.writeFile path (Xml.document indent root)
    liftM (c.notify .success ("Wrote " ++ path))
  | .fragments =>
    if c.options.format = .json then
      liftM (c.print (Json.arr (fragments.map (fragmentJson indent))).pretty)
    else
      liftM (c.showFragments indent fragments)
  | .directory path => do
    orFail ("Failed to create " ++ path) (← liftM (c.shell.makeDirectories path))
    c.writeFragments indent path 0 fragments
    liftM (c.notify .success
      ("Wrote " ++ toString fragments.length ++ " fragments to " ++ path))

/-- Lists the standard models. -/
def listModels (c : Console m) : m Unit := do
  let models := Catalogue.registry.models
  c.heading ("Standard catalogue (" ++ toString models.length ++ " models)")
  c.display (.ofModels models)

/-- Shows the fields of a standard model. -/
def showModel (c : Console m) (name : String) : Running m Unit := do
  match Catalogue.registry.models.find? fun model => model.name = name with
  | none => throw (ConfigError.unknownModel name).message
  | some model =>
    liftM (c.heading (model.name ++ " <" ++ model.tag ++ ">"))
    liftM (model.positional.forM (c.entry "positional"))
    liftM (model.fields.forM fun f =>
      f.description.forM fun description => c.bullet (f.name ++ ": " ++ description))
    liftM (c.display (.ofModel model))

/-- Lists the pruning rules in effect. -/
def listRules (c : Console m) (project : Project) : m Unit := do
  let rules := project.settings.rules
  if project.settings.replaceRules then
    c.notify .warning "Standard rules replaced by the config file"
  c.heading ("Default-pruning rules (" ++ toString rules.size ++ ")")
  c.display (.ofRules rules)

/-- Shows the settings in effect. -/
def showSettings (c : Console m) (project : Project) : m Unit := do
  let apiUrl ← c.expandOrWarn project.settings.apiUrl
  let senderServer ← c.expandOrWarn project.settings.senderServer
  c.heading "Configuration"
  c.display (.ofSettings project.file { project.settings with apiUrl, senderServer })

/-- Sends a metric and waits at most `timeout` seconds. -/
def sendMetric (c : Console m) (project : Project) (metric : Metric) (server : Option String)
    (timeout : Nat) : Running m Unit := do
  let address ← match server with
    | some server => pure server
    | none => do
      match ← liftM (c.expand project.settings.senderServer) with
      | .ok address => pure address
      | .error reason => throw (reason ++ ": environment variable not found")
  liftM (c.notify .detail ("Connecting to " ++ address))
  let context := "Failed to connect to " ++ address
  match addressFault? address with
  | some fault => throw (context ++ ": " ++ fault)
  | none =>
    let (now, _) ← liftM c.shell.clock
    let reply ← orFail context
      (← liftM (c.shell.transmit address timeout (Metric.packet [metric] now)))
    let (result, _) := Metric.send [metric] now ⟨[], reply, none⟩
    let info ← orFail "Sending failed" (result.mapError SenderError.message)
    liftM (c.notify .success (info.getD "Value accepted"))

/-- Runs a command. -/
def execute (c : Console m) (command : Command) : Running m Unit := do
  let project ← c.loadProject
  liftM (project.file.forM fun path => c.notify .detail ("Using " ++ path))
  match command with
  | .render sample target => c.render project sample target
  | .listModels => liftM c.listModels
  | .showModel name => c.showModel name
  | .rules => liftM (c.listRules project)
  | .config => liftM (c.showSettings project)
  | .send key value host server timeout =>
    c.sendMetric project { Metric.ofValue key (.text value) with host } server timeout

end Console

def versionLine : String := "zbxconf 0.1.0\n"

def helpText : String := "Compiles monitoring configuration into import-ready XML.

Usage: zbxconf [--output table|json|compact] [--config FILE] [-q] [-v] [--no-color] COMMAND

Commands:
  render circus|cluster [--split] [--output-file FILE | --output-dir DIR]
  schema list | show MODEL
  rules
  config
  send KEY VALUE [--host HOST] [--server ADDRESS] [--timeout SECONDS]
"

/-- Runs the program and returns its exit code. -/
def run (shell : Shell m) (arguments : List String) : m Nat := do
  match Invocation.ofArguments arguments with
  | .error .usage => do
    shell.errorOutput helpText
    return 2
  | .error .help => do
    shell.output helpText
    return 0
  | .error .version => do
    shell.output versionLine
    return 0
  | .ok invocation => do
    let c : Console m := ⟨shell, invocation.options, ← Console.wantsColor shell⟩
    match ← (c.execute invocation.command).run with
    | .ok () => return 0
    | .error message => do
      c.notify .failure message
      return 1

end MonitorExport.CommandLine
