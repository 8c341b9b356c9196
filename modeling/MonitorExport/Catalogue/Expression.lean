import MonitorExport.Catalogue.Aggregate
import MonitorExport.Store.Build

/-!
Items that aggregate others, made in one step, and the form of items in the expressions of triggers.
-/

namespace MonitorExport.Catalogue

/-- A function over the values of the hosts of some groups. -/
inductive AggregateFunction where
  | average
  | sum
deriving DecidableEq

namespace AggregateFunction

/-- What is appended to the name of the item. -/
def nameEnd : AggregateFunction → String
  | .average => " (avg)"
  | .sum => " (sum)"

/-- The function over groups in the key. -/
def groupFunction : AggregateFunction → String
  | .average => "grpavg"
  | .sum => "grpsum"

/-- The function over the values of one item in the key. -/
def itemFunction : AggregateFunction → String
  | .average => "avg"
  | .sum => "sum"

end AggregateFunction

/-- The name of an aggregate item, which always tells the function. -/
def aggregateName (f : AggregateFunction) (name : String) : String :=
  if name.endsWith f.nameEnd then name else name ++ f.nameEnd

/-- The fields of an aggregate item: the groups, and the functions and the period where they are not
given. -/
def aggregateFields (f : AggregateFunction) (groups : Input) (fields : Fields) : Fields :=
  (((fields.insert "groups" groups).setDefault "groupfunc" (.text f.groupFunction)).setDefault
    "itemfunc" (.text f.itemFunction)).setDefault "timeperiod" (.text "1m")

/-- Adds an item to a collection that applies a function to the values of the hosts of some groups. -/
def addAggregate (items : CollectionId) (f : AggregateFunction) (name : String) (groups : Input)
    (fields : Fields) : Edit EntityId := .orRelease do
  let m ← Edit.ofRead fun s =>
    s.findModel (s.target items.owner items.field).registry Aggregate.model
  let item ← Store.build m (.text (aggregateName f name)) (aggregateFields f groups fields)
  Store.addBuilt items item

/-- The form of an item in the expression of a trigger: its key, after the host that has it. -/
def itemExpression (s : Store) (item : EntityId) : Except ConfigError String :=
  (s.identity item).map fun identity =>
    let key := ((identity.get? "key").map Value.render).getD ""
    match identity.get? "host" with
    | some host => host.render ++ ":" ++ key
    | none => key

end MonitorExport.Catalogue
