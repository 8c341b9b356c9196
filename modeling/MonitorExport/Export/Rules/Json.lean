import MonitorExport.Export.Rules
import MonitorExport.Json.Scalar

/-!
Tables of pruning rules as JSON: an object with the list of rules, each with its path and value.
-/

namespace MonitorExport

def PruningRule.toJson (r : PruningRule) : Json :=
  .obj [("path", .str r.path), ("value", r.value.toJson)]

/-- The rule that a term is. -/
def PruningRule.ofTerm? (t : Json.Term) : Option PruningRule :=
  match t.record? ["path", "value"] with
  | some [some path, some value] =>
    match path.text?, value.value? with
    | some path, some value => some ⟨path, value⟩
    | _, _ => none
  | _ => none

namespace PruningRules

def toJson (t : PruningRules) : Json :=
  .obj [("rules", .arr (t.rules.map PruningRule.toJson))]

/-- The table that a term is. -/
def ofTerm? (t : Json.Term) : Option PruningRules :=
  match t.record? ["rules"] with
  | some [some (.arr rules)] => (rules.mapM PruningRule.ofTerm?).map PruningRules.mk
  | _ => none

def read? (s : String) : Option PruningRules :=
  (Json.Term.read? s).bind ofTerm?

end PruningRules

end MonitorExport
