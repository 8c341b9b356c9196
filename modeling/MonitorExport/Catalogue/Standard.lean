import MonitorExport.Catalogue.Discovery
import MonitorExport.Catalogue.Document
import MonitorExport.Catalogue.Graphs
import MonitorExport.Catalogue.Hosts
import MonitorExport.Catalogue.Items
import MonitorExport.Catalogue.Screens
import MonitorExport.Catalogue.Tags
import MonitorExport.Schema.Registry

/-!
The standard catalogue of models, for version 2.0 of the export format.
-/

namespace MonitorExport.Catalogue

/-- The declarations of the standard models, in order. Their fields are not numbered yet, so that
others can be declared after them. -/
def declarations : List ModelDecl :=
  [config, trigger, application, group, template, host, interface, namedText, valueMap, item,
    aggregateItem, graph, graphItem, screen, screenItem, discoveryRule]

/-- The standard models, or why their declarations do not resolve. -/
def standard : Except SchemaError Registry :=
  Registry.ofDecls (ModelDecl.number declarations)

/-- The registry of the standard models. Their declarations resolve. -/
def registry : Registry :=
  standard.toOption.getD default

end MonitorExport.Catalogue
