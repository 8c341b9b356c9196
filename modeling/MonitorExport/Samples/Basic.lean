import MonitorExport.Catalogue.Document
import MonitorExport.Store.Build

/-!
The steps from which sample documents are made.
-/

namespace MonitorExport.Samples

def texts (words : List String) : Input :=
  .list (words.map .text)

def newDocument : Edit EntityId :=
  Store.instantiate 0 Catalogue.config.name

/-- Builds a member of an entity's collection and adds it. -/
def put (owner : EntityId) (field : String) (positional : Input) (fields : Fields) :
    Edit EntityId := do
  let c ← Edit.ofRead fun s => s.collection owner field
  Store.addNew c positional fields

/-- Adds a member that is named by a text. -/
def putNamed (owner : EntityId) (field name : String) (fields : List (String × Input)) :
    Edit EntityId :=
  put owner field (.text name) (.ofList fields)

/-- Adds a member that is given by fields alone. -/
def putFields (owner : EntityId) (field : String) (fields : List (String × Input)) :
    Edit EntityId :=
  put owner field .null (.ofList fields)

/-- Adds a member that stands for another entity. -/
def putFor (owner : EntityId) (field : String) (e : EntityId) (fields : List (String × Input)) :
    Edit EntityId :=
  put owner field (.entity e) (.ofList fields)

end MonitorExport.Samples
