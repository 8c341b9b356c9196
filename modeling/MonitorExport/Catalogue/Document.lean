import MonitorExport.Catalogue.Preparation

/-!
The root of a document, and triggers.
-/

namespace MonitorExport.Catalogue

/-- The root of a document. -/
def config : ModelDecl where
  name := "Config"
  tag := some "zabbix_export"
  document := true
  fields := [
    ("templates", Field.set "Template"),
    ("graphs", Field.set "Graph"),
    ("hosts", Field.set "Host"),
    ("screens", Field.set "Screen")]

/-- A condition on items, with what to do about it. -/
def trigger : ModelDecl where
  name := "Trigger"
  tag := some "trigger"
  positional := some "name"
  fields := [
    ("name", Field.plain),
    ("expression", Field.plain),
    ("status", Field.choice 0 [(0, "enabled"), (1, "disabled")]),
    ("priority", Field.choice 0 [
      (0, "not classified"), (1, "information"), (2, "warning"), (3, "average"), (4, "high"),
      (5, "disaster")]),
    ("type", Field.choice 0 [
      (0, "do not generate multiple events"), (1, "generate multiple events")])]

end MonitorExport.Catalogue
