import MonitorExport.Catalogue.Preparation

/-!
Screens and their cells.
-/

namespace MonitorExport.Catalogue

/-- A screen, whose items fill its rows from left to right. -/
def screen : ModelDecl where
  name := "Screen"
  tag := some "screen"
  positional := some "name"
  arrangement := some (.grid "screen_items" "hsize" "x" "y")
  fields := [
    ("name", Field.plain),
    ("screen_items", Field.set "ScreenItem"),
    ("hsize", (Field.fixedSize 1).withDefault (.int 3)),
    ("vsize", Field.elastic "hsize" "screen_items")]

/-- One cell of a screen, which shows a graph unless its type says otherwise. -/
def screenItem : ModelDecl where
  name := "ScreenItem"
  tag := some "screen_item"
  positional := some "graph"
  preparation := some (Preparation.takeAlias "graph" "resource")
  fields := [
    ("resourcetype", Field.choice 0 [
      (0, "graph"), (1, "simple graph"), (2, "map"), (3, "plain text"), (4, "hosts info"),
      (5, "triggers info"), (6, "server info"), (7, "clock"), (8, "screen"),
      (9, "triggers overview"), (10, "data overview"), (11, "URL"),
      (12, "history of actions"), (13, "history of events"),
      (14, "status of host group triggers"), (15, "system status"),
      (16, "status of host triggers")]),
    ("width", Field.integer 320),
    ("height", Field.integer 200),
    ("x", Field.plain),
    ("y", Field.plain),
    ("colspan", Field.integer 1),
    ("rowspan", Field.integer 1),
    ("resource", (Field.reference "Graph").appendingHost),
    ("dynamic", Field.choice 0 [(0, "not dynamic"), (1, "dynamic")]),
    ("elements", Field.integer 25),
    ("halign", Field.choice 0 [(0, "center"), (1, "left"), (2, "right")]),
    ("valign", Field.choice 0 [(0, "middle"), (1, "top"), (2, "bottom")]),
    ("sort_triggers", Field.choice 0 [
      (0, "last change, descending"), (1, "severity, descending"), (2, "host, ascending"),
      (3, "time, ascending"), (4, "time, descending"), (5, "type, ascending"),
      (6, "type, descending"), (7, "status, ascending"), (8, "status, descending"),
      (9, "retries left, ascending"), (10, "retries left, descending"),
      (11, "recipient, ascending"), (12, "recipient, descending")]),
    ("style", Field.integer 0)]

end MonitorExport.Catalogue
