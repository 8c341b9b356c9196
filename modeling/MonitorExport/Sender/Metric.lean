import MonitorExport.Json
import MonitorExport.Value

/-!
Measured values for items, and the request that carries them to a server.
-/

namespace MonitorExport

/-- A value for an item of a host. -/
structure Metric where
  key : String
  value : Option Value
  host : Option String
  clock : Option Int

namespace Metric

def defaultHost : String := "localhost"

def placeholder : String := "-"

/-- A value for an item of the default host, measured when it is sent. -/
def ofValue (key : String) (value : Value) : Metric :=
  ⟨key, some value, none, none⟩

/-- The host in a request. -/
def hostText (m : Metric) : String :=
  match m.host with
  | none => defaultHost
  | some host => if host = placeholder then defaultHost else host

/-- The value in a request. -/
def valueText (m : Metric) : String :=
  let text := (m.value.map Value.render).getD ""
  if text.isEmpty then placeholder else text

/-- The entry of a request sent at `now`. -/
def toJson (now : Int) (m : Metric) : Json :=
  .obj [("host", .str m.hostText), ("key", .str m.key), ("value", .str m.valueText),
    ("clock", .int (m.clock.getD now))]

/-- The request for some metrics sent at `now`. -/
def request (metrics : List Metric) (now : Int) : Json :=
  .obj [("request", .str "sender data"), ("data", .arr (metrics.map (toJson now))),
    ("clock", .int now)]

end Metric

end MonitorExport
