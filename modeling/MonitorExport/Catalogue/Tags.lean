import MonitorExport.Catalogue.Preparation

/-!
Applications and groups: named tags, equal if their names are.
-/

namespace MonitorExport.Catalogue

/-- A named set of items of one host. -/
def application : ModelDecl where
  name := "Application"
  tag := some "application"
  positional := some "name"
  identity := some ["name"]
  fields := [
    ("name", Field.plain)]

/-- A named set of hosts. -/
def group : ModelDecl where
  name := "Group"
  tag := some "group"
  positional := some "name"
  identity := some ["name"]
  fields := [
    ("name", Field.plain)]

end MonitorExport.Catalogue
