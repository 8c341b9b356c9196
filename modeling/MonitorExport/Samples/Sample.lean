import MonitorExport.Catalogue.Standard
import MonitorExport.Samples.Circus
import MonitorExport.Samples.Cluster

/-!
The sample documents and their names.
-/

namespace MonitorExport

/-- A sample document. -/
inductive Sample where
  | circus
  | cluster
deriving DecidableEq

namespace Sample

def all : List Sample :=
  [circus, cluster]

/-- The name of a sample document. -/
def name : Sample → String
  | circus => "circus"
  | cluster => "cluster"

def ofName? (name : String) : Option Sample :=
  all.find? fun sample => sample.name = name

/-- The steps that build a sample document. -/
def steps : Sample → Edit EntityId
  | circus => Samples.Circus.build
  | cluster => Samples.Cluster.build

/-- Builds a sample document in a store of its own. -/
def build (sample : Sample) : Except ConfigError (Store × EntityId) :=
  let (result, s) := sample.steps (Store.ofRegistries [Catalogue.registry])
  result.map fun document => (s, document)

end Sample

end MonitorExport
