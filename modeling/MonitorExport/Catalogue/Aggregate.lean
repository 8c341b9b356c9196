import MonitorExport.Json
import MonitorExport.Schema.Model
import MonitorExport.Validation.Period

/-!
Keys of aggregate items. The key of such an item names groups of hosts, the key of an item on them, two
functions and a period; it is built from fields that the item itself does not have.
-/

namespace MonitorExport.Aggregate

def model : String := "AggregateItem"

def unsetGroup : String := "<not set>"

def failure (field : String) (reason : ValidationError) : ConfigError :=
  .invalidValue model field reason

/-- The text of a parameter, if it is given. -/
def textOf (view : EntityView) (fields : Fields) (key : String) :
    Except ConfigError (Option String) :=
  match fields.get? key with
  | none | some .null => .ok none
  | some (.value v) => .ok (some v.render)
  | some input =>
    .error (failure key (.aggregateParameter "a value" (view.describeInput input)))

/-- The name of a group: a text, or the name of an entity. -/
def groupName (view : EntityView) : Input → Except ConfigError String
  | .value v => .ok v.render
  | .entity e =>
    match view.nameOf e with
    | some name => .ok name
    | none => .error (failure "groups" (.namelessGroup (view.describe e)))
  | input =>
    .error (failure "groups" (.aggregateParameter "a group name" (view.describeInput input)))

def addName (names : List String) (name : String) : List String :=
  if name ∈ names then names else names ++ [name]

/-- The names of the groups, each once, in the order in which they are first given. -/
def groupsOf (view : EntityView) (fields : Fields) : Except ConfigError (List String) :=
  let inputs := match fields.get? "groups" with
    | none | some .null => []
    | some (.list items) => items
    | some input => [input]
  (inputs.mapM (groupName view)).map fun names => names.foldl addName []

/-- The period over which values are taken; none is zero seconds. -/
def periodOf (view : EntityView) (fields : Fields) : Except ConfigError String := do
  let v ← match fields.get? "timeperiod" with
    | none | some .null => pure (.int 0)
    | some (.value v) => pure v
    | some input =>
      throw (failure "timeperiod" (.aggregateParameter "a period" (view.describeInput input)))
  match Period.format v with
  | .ok text => return text
  | .error reason => throw (failure "timeperiod" reason)

/-- The groups in a key: one name, or a list of several. -/
def groupsText : List String → List Char
  | [] => Json.quote unsetGroup
  | [name] => Json.quote name
  | names => Json.characters (.arr (names.map .str))

/-- The key of an aggregate item. -/
def keyText (groupFunction : String) (groups : List String) (key itemFunction period : String) :
    String :=
  String.ofList (groupFunction.toList ++ '[' :: groupsText groups ++ ',' :: Json.quote key
    ++ ',' :: itemFunction.toList ++ ',' :: period.toList ++ [']'])

def withoutParameters (fields : Fields) : Fields :=
  (((fields.erase "groups").erase "groupfunc").erase "itemfunc").erase "timeperiod"

/-- Replaces the parameters by the key that they make, and sets the type and the data type of an
aggregate item where they are not given. -/
def buildKey : Preparation := fun view fields => do
  let groups ← groupsOf view fields
  let groupFunction := (← textOf view fields "groupfunc").getD "grpavg"
  let itemFunction := (← textOf view fields "itemfunc").getD "avg"
  let period ← periodOf view fields
  let key := (← textOf view fields "key").getD ""
  let fields := (withoutParameters fields).erase "key"
  let fields := fields.insert "key" (.text (keyText groupFunction groups key itemFunction period))
  return (fields.setDefault "type" (.int 8)).setDefault "data_type" (.text "decimal")

end MonitorExport.Aggregate
