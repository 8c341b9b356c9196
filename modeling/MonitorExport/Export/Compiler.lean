import MonitorExport.Export.Document
import MonitorExport.Export.Fragment
import MonitorExport.Export.Rules.Standard
import MonitorExport.Export.Timestamp
import MonitorExport.Export.Xml
import MonitorExport.Store.Subtree

/-!
Compiling an entity: what it owns is mapped to a tree field by field, what the importing server assumes
is pruned, and documents are gathered at their root.
-/

namespace MonitorExport

/-- A step of a mapping, which may draw colours and may fail. -/
abbrev Drawing := StateT Palette (Except ConfigError)

abbrev Overrides := List (String × Value)

namespace Mapping

def arrangedIndex? (schema : ModelSchema) : Option Nat :=
  schema.arrangement.bind fun a => schema.fieldIndex? a.items

/-- The values that an arrangement gives to the `k`-th member, in rows of the given width. -/
def placeMember (width : Int) (k : Nat) : Arrangement → Overrides
  | .sequence _ position => [(position, .int k)]
  | .grid _ _ x y => [(x, .int (k % width)), (y, .int (k / width))]

/-- The width of the rows of an arrangement. -/
def arrangementWidth (s : Store) (e : EntityId) : Arrangement → Except ConfigError Int
  | .sequence _ _ => .ok 1
  | .grid _ columns _ _ => (s.get e columns).map Store.rowWidth

/-- The element of a scalar field, if it has a value. An override replaces the value of the entity. -/
def scalarNodes (s : Store) (e : EntityId) (index : Nat) (overrides : Overrides) :
    Drawing (List Node) := do
  let name := s.fieldName e index
  let v ← match overrides.find? fun o => o.1 = name with
    | some (_, v) => pure (some v)
    | none => fun palette => s.readDrawing e index palette
  return (v.map fun v => Node.leaf name v.render).toList

/-- The element of a reference, with the identity that it stands for. -/
def referenceNode (s : Store) (e : EntityId) (index : Nat) : Except ConfigError Node :=
  (s.resolve e index).map fun identity =>
    Node.ofChildren (s.fieldName e index)
      (identity.pairs.map fun (key, v) => Node.leaf key v.render)

/-- The tag of the members of a field, if it is not that of their model. -/
def memberTag? (s : Store) (e : EntityId) (index : Nat) : Option String :=
  match s.kind e index with
  | .set _ _ tag => tag
  | _ => none

/-- Whether a collection is written without members too. -/
def allowsEmpty (s : Store) (e : EntityId) (index : Nat) : Bool :=
  match s.kind e index with
  | .set _ allowEmpty _ => allowEmpty
  | _ => false

/-- The element of a collection with the given members, if it is written. -/
def collectionNodes (s : Store) (e : EntityId) (index : Nat) (members : List Node) : List Node :=
  if members.isEmpty && !allowsEmpty s e index then []
  else [Node.ofChildren (s.fieldName e index) members]

/-- The elements of one field, given those of its members if it is a collection. -/
def slotNodes (s : Store) (e : EntityId) (index : Nat) (overrides : Overrides)
    (members : Drawing (List Node)) : Drawing (List Node) :=
  match s.slot e index with
  | .scalar _ => scalarNodes s e index overrides
  | .binding _ => ([·]) <$> liftM (referenceNode s e index)
  | .members _ => collectionNodes s e index <$> members

mutual

/-- The elements of an entity's fields, in the order of its table, the arranged collection last. -/
def entityNodes (s : Store) (overrides : Overrides) : Subtree → Drawing (List Node)
  | .node e branches => do
    let schema := s.schemaOf e
    let arranged := arrangedIndex? schema
    let nodes ← fieldNodes s e overrides arranged 0 branches
    match arranged, schema.arrangement with
    | some index, some arrangement =>
      match s.slot e index with
      | .members _ =>
        let width ← liftM (arrangementWidth s e arrangement)
        let members ← branchNodes s (memberTag? s e index) (placeMember width · arrangement) index
          branches
        return nodes ++ collectionNodes s e index members
      | _ => return nodes
    | _, _ => return nodes

/-- The elements of the fields from a place of the table on, without the arranged one. -/
def fieldNodes (s : Store) (e : EntityId) (overrides : Overrides) (arranged : Option Nat)
    (index : Nat) : List (List Subtree) → Drawing (List Node)
  | [] => return []
  | members :: rest => do
    let here ←
      if arranged = some index then pure []
      else
        slotNodes s e index overrides
          (memberNodes s (memberTag? s e index) (fun _ => []) 0 members)
    return here ++ (← fieldNodes s e overrides arranged (index + 1) rest)

/-- The elements of the members in the branch at a place. -/
def branchNodes (s : Store) (tag : Option String) (overrides : Nat → Overrides) :
    Nat → List (List Subtree) → Drawing (List Node)
  | _, [] => return []
  | 0, members :: _ => memberNodes s tag overrides 0 members
  | index + 1, _ :: rest => branchNodes s tag overrides index rest

/-- The elements of members, of which the first is the `k`-th of its collection. -/
def memberNodes (s : Store) (tag : Option String) (overrides : Nat → Overrides) (k : Nat) :
    List Subtree → Drawing (List Node)
  | [] => return []
  | t :: rest => do
    let children ← entityNodes s (overrides k) t
    let node := Node.ofChildren (tag.getD (s.schemaOf t.root).tag) children
    return node :: (← memberNodes s tag overrides (k + 1) rest)

end

end Mapping

/-- What a compilation depends on beside the entity. -/
structure Compiler where
  rules : PruningRules
  palette : Palette
  version : String
  /-- The time that documents are dated at, if it is pinned. -/
  pinned : Option Timestamp
  /-- What the clock shows during the compilation. -/
  clock : Timestamp
  indent : Nat

namespace Compiler

def exportVersion : String := "2.0"

def rootTag : String := "zabbix_export"

/-- A compiler with the standard rules and colours that dates documents by the clock. -/
def unpinned (clock : Timestamp) : Compiler where
  rules := PruningRules.standard
  palette := Palette.standard
  version := exportVersion
  pinned := none
  clock
  indent := Xml.standardIndent

/-- A compiler with the standard rules and colours that dates documents at a given time. -/
def standard (time : Timestamp) : Compiler :=
  { unpinned time with pinned := some time }

/-- The compiler at another reading of the clock. -/
def atClock (c : Compiler) (clock : Timestamp) : Compiler :=
  { c with clock }

/-- The time that documents are dated at: the pinned one, or else that of the compilation. -/
def time (c : Compiler) : Timestamp :=
  c.pinned.getD c.clock

def header (c : Compiler) : List Node :=
  [Node.leaf "version" c.version, Node.leaf "date" c.time.text]

/-- The tree of an entity before pruning. Colours are drawn from the start of the palette. -/
def mapRoot (c : Compiler) (s : Store) (e : EntityId) : Except ConfigError Node := do
  let (nodes, _) ← (Mapping.entityNodes s [] (s.subtree e)).run c.palette.reset
  if s.isDocument e then return Node.ofChildren rootTag (c.header ++ nodes)
  else return Node.ofChildren (s.schemaOf e).tag nodes

/-- The tree of an entity. -/
def compile (c : Compiler) (s : Store) (e : EntityId) : Except ConfigError Node :=
  (c.mapRoot s e).map fun root =>
    let pruned := c.rules.prune root
    if s.isDocument e then pruned.gather else pruned

def render (c : Compiler) (s : Store) (e : EntityId) : Except ConfigError String :=
  (c.compile s e).map (Xml.document c.indent)

def fragments (c : Compiler) (s : Store) (e : EntityId) : Except ConfigError (List Fragment) :=
  (c.compile s e).map Fragment.split

end Compiler

end MonitorExport
