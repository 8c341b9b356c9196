import MonitorExport.Catalogue.Expression
import MonitorExport.Samples.Basic

/-!
A small cluster of web servers: two hosts linked by name to a common template, aggregate items over
the group of the cluster, and a screen for each host.
-/

namespace MonitorExport.Samples.Cluster

def group : String := "Web servers"

def template : String := "Template - Web Cluster"

def application : String := "Cluster"

/-- The key of the item from which the trigger and the aggregate item are made. -/
def loadKey : String := "system.cpu.load[percpu,avg1]"

/-- The names of the hosts, with their addresses. -/
def hosts : List (String × String) :=
  [("web-1", "10.0.0.1:10050"), ("web-2", "web-2.example.net")]

def highAverage (item : String) : String :=
  "\x7b" ++ item ++ ".avg(5m)\x7d>5"

/-- Adds the template. -/
def addTemplate (document : EntityId) : Edit Unit := do
  let owner ← putNamed document "templates" template
    [("groups", texts ["Templates - Services"]), ("applications", texts [application])]
  let items ← Edit.ofRead fun s => s.collection owner "items"
  let load ← putFields owner "items" [("name", .text "CPU load"), ("key", .text loadKey),
    ("type", .text "Zabbix agent"), ("value_type", .text "numeric_float"),
    ("applications", texts [application])]
  let _ ← Catalogue.addAggregate items .average "Cluster CPU load" (.text group)
    (.ofList [("key", .text loadKey)])
  let _ ← Catalogue.addAggregate items .sum "Cluster connections" (texts [group])
    (.ofList [("key", .text "nginx.connections"), ("timeperiod", .int 300)])
  let expression ← Edit.ofRead fun s => Catalogue.itemExpression s load
  let _ ← putNamed owner "triggers" "High CPU load on \x7bHOST.NAME\x7d"
    [("expression", .text (highAverage expression)), ("priority", .text "warning")]

/-- Adds a host with its traffic, a graph of it, and a screen of the graph. -/
def addHost (document : EntityId) (h : String × String) : Edit Unit := do
  let host ← putNamed document "hosts" h.1
    [("groups", texts [group]), ("interfaces", texts [h.2]), ("templates", texts [template])]
  let traffic ← putFields host "items" [("name", .text "Incoming traffic"),
    ("key", .text "net.if.in[eth0]"), ("units", .text "bps"), ("delta", .text "delta_per_second")]
  let graph ← putNamed host "graphs" "Network traffic" [("type", .text "stacked")]
  let _ ← putFor graph "graph_items" traffic [("drawtype", .int 1)]
  let screen ← putNamed host "screens" (h.1 ++ " overview") [("hsize", .int 1)]
  let _ ← putFor screen "screen_items" graph []

/-- Builds the document. -/
def build : Edit EntityId := do
  let document ← newDocument
  addTemplate document
  hosts.forM (addHost document)
  return document

end MonitorExport.Samples.Cluster
