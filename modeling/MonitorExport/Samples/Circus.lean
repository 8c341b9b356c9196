import MonitorExport.Samples.Basic

/-!
A template for the Circus process manager: plain items with a graph for each, a screen of all graphs,
and a discovery rule for the workers.
-/

namespace MonitorExport.Samples.Circus

def template : String := "Template - Generic - Circus Process Manager"

def application : String := "Circus server usage"

/-- An item of the template or of its discovery rule. -/
structure Reading where
  name : String
  key : String
  valueType : Option String
  units : String
  description : String

/-- The items of the server. -/
def readings : List Reading := [
  ⟨"Circus - Number of processes", "circus.numprocesses", none, "",
    "Total number of circusd processes"⟩,
  ⟨"Circus - Number of children", "circus.dstats.children", none, "",
    "Total number of circusd children"⟩,
  ⟨"Circus - Memory usage", "circus.dstats.mem", some "numeric_float", "%",
    "Percentage of circusd process memory usage"⟩,
  ⟨"Circus - RSS Memory", "circus.dstats.mem_info1", some "numeric_float", "M",
    "Resident Set Size Memory in bytes (RSS)"⟩,
  ⟨"Circus - VMS Memory", "circus.dstats.mem_info2", some "numeric_float", "M",
    "Resident Set Size Memory in bytes (VMS)"⟩,
  ⟨"Circus - CPU usage", "circus.dstats.cpu", some "numeric_float", "%",
    "Percentage of circusd process CPU usage"⟩,
  ⟨"Circus - Nice", "circus.dstats.nice", none, "",
    "Niceness of the circusd process (between -20 and 20)"⟩]

/-- The items of each worker, with the names of their graphs. -/
def workerReadings : List (Reading × String) := [
  (⟨"Processes count for $1", "circus.worker.sum.numprocesses[\x7b#WORKER\x7d]", none, "",
    "Processes count for all worker processes"⟩,
    "Circus - Processes count for \x7b#WORKER\x7d"),
  (⟨"Memory usage for $1", "circus.worker.sum.mem[\x7b#WORKER\x7d]", some "numeric_float", "%",
    "Percentage of worker processes memory usage"⟩,
    "Circus - Memory usage for \x7b#WORKER\x7d"),
  (⟨"RSS Memory usage for $1", "circus.worker.sum.mem_info1[\x7b#WORKER\x7d]", some "numeric_float",
    "M", "Resident Set Size Memory in bytes (RSS) for all worker processes"⟩,
    "Circus - RSS Memory usage for \x7b#WORKER\x7d"),
  (⟨"VMS Memory usage for $1", "circus.worker.sum.mem_info2[\x7b#WORKER\x7d]", some "numeric_float",
    "M", "Resident Set Size Memory in bytes (VMS) for all worker processes"⟩,
    "Circus - VMS Memory usage for \x7b#WORKER\x7d"),
  (⟨"CPU usage for $1", "circus.worker.sum.cpu[\x7b#WORKER\x7d]", some "numeric_float", "%",
    "Percentage of CPU usage of a worker"⟩,
    "Circus - CPU usage for \x7b#WORKER\x7d")]

/-- The fields of an item. -/
def Reading.fields (r : Reading) : List (String × Input) :=
  [("name", .text r.name), ("key", .text r.key), ("units", .text r.units),
    ("description", .text r.description), ("applications", texts [application])]
    ++ (r.valueType.map fun valueType => ("value_type", Input.text valueType)).toList

/-- Adds an item of the server with its graph, which also goes to the screen. -/
def addReading (owner screen : EntityId) (r : Reading) : Edit Unit := do
  let item ← putFields owner "items" r.fields
  let graph ← putNamed owner "graphs" r.name []
  let _ ← putFor graph "graph_items" item []
  let _ ← putFor screen "screen_items" graph []

/-- Adds an item of each worker with its graph. -/
def addWorkerReading (rule : EntityId) (r : Reading × String) : Edit Unit := do
  let item ← putFields rule "item_prototypes" r.1.fields
  let graph ← putNamed rule "graph_prototypes" r.2 []
  let _ ← putFor graph "graph_items" item []

/-- Builds the document. -/
def build : Edit EntityId := do
  let document ← newDocument
  let owner ← putNamed document "templates" template
    [("groups", texts ["Templates - Services"]), ("applications", texts [application])]
  let screen ← putNamed owner "screens" "Generic Screen - Circus" []
  readings.forM (addReading owner screen)
  let rule ← putNamed owner "discovery_rules" "Circus discovery" [("key", .text "circus.discovery")]
  workerReadings.forM (addWorkerReading rule)
  return document

end MonitorExport.Samples.Circus
