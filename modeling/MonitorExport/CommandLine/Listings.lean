import MonitorExport.CommandLine.Settings
import MonitorExport.CommandLine.Shell
import MonitorExport.Export.Rules.Json

/-!
The data that commands show: rules, models, the fields of a model, and settings.
-/

namespace MonitorExport.CommandLine.Listing

def texts (items : List String) : Json :=
  .arr (items.map .str)

/-- The rules in effect. -/
def ofRules (t : PruningRules) : Listing where
  json := t.toJson
  table := {
    header := ["#", "Path", "Default"]
    rows := t.rules.mapIdx fun i r => [toString (i + 1), r.path, r.value.render] }
  line := " ".intercalate (t.rules.map fun r => r.path ++ "=" ++ r.value.render)

def referencedBy (m : ModelSchema) : List String :=
  (m.reference.map (·.field)).toList

/-- What is told about a model in short. -/
def summary (m : ModelSchema) : List (String × Json) :=
  [("name", .str m.name), ("tag", .str m.tag), ("fields", .int m.fields.length),
    ("positional", Json.strOrNull m.positional), ("referenced_by", texts (referencedBy m)),
    ("host_scope", .bool m.hostScope)]

/-- A text for a list, or a hyphen if it is empty. -/
def orHyphen (items : List String) : String :=
  if items.isEmpty then "-" else ", ".intercalate items

/-- The models of a registry. -/
def ofModels (models : List ModelSchema) : Listing where
  json := .arr (models.map fun m => .obj (summary m))
  table := {
    header := ["Model", "Tag", "Fields", "Positional", "Referenced by", "Host scope"]
    rows := models.map fun m =>
      [m.name, m.tag, toString m.fields.length, orHyphen m.positional.toList,
        orHyphen (referencedBy m), if m.hostScope then "yes" else ""] }
  line := " ".intercalate (models.map (·.name))

/-- What a field points at: a model, or the fields from which its rows are counted. -/
def target? (f : FieldSchema) : Option String :=
  match f.kind with
  | .set model _ _ | .reference model _ => some model
  | .elastic size items => some (items ++ " / " ++ size)
  | _ => none

/-- The choices of a field, each with its code and label. -/
def choices (f : FieldSchema) : List String :=
  f.choices.map fun c => c.code.render ++ "=" ++ c.label

def validators (f : FieldSchema) : List String :=
  f.validators.map (·.name)

/-- A field as JSON. -/
def fieldJson (f : FieldSchema) : Json :=
  .obj [("name", .str f.name), ("kind", .str f.kind.label), ("target", Json.strOrNull (target? f)),
    ("default", Json.strOrNull (f.default?.map Value.render)), ("choices", texts (choices f)),
    ("validators", texts (validators f)), ("description", Json.strOrNull f.description)]

/-- A field as a row of a table. -/
def fieldRow (f : FieldSchema) : List String :=
  [f.name, f.kind.label, (target? f).getD "", (f.default?.map Value.render).getD "",
    "\n".intercalate (choices f), ", ".intercalate (validators f)]

/-- The fields of a model. -/
def ofModel (m : ModelSchema) : Listing where
  json := .obj (summary m ++ [("field_table", .arr (m.fields.map fieldJson))])
  table := {
    header := ["Field", "Kind", "Target", "Default", "Choices", "Validators"]
    rows := m.fields.map fieldRow }
  line := m.name ++ ": " ++ " ".intercalate (m.fields.map (·.name))

/-- Settings and the file they are from. Addresses are the ones in effect. -/
def ofSettings (file : Option String) (s : Settings) : Listing where
  json := .obj [("file", Json.strOrNull file), ("version", .str s.version), ("indent", .int s.indent),
    ("rules", .int s.rules.size), ("rules_replaced", .bool s.replaceRules),
    ("api_url", .str s.apiUrl), ("api_user", .str s.apiUser),
    ("sender_server", .str s.senderServer)]
  table := {
    header := ["Setting", "Value"]
    rows := [
      ["file", file.getD "(defaults)"],
      ["export.version", s.version],
      ["export.indent", toString s.indent],
      ["rules", toString s.rules.size],
      ["rules.replace", if s.replaceRules then "true" else "false"],
      ["api.url", s.apiUrl],
      ["api.user", s.apiUser],
      ["sender.server", s.senderServer]] }
  line := " ".intercalate ["version=" ++ s.version, "indent=" ++ toString s.indent,
    "rules=" ++ toString s.rules.size, "api=" ++ s.apiUrl, "sender=" ++ s.senderServer]

end MonitorExport.CommandLine.Listing
