import MonitorExport.Store.Read

/-!
Owners of entities, the equality that collections use, and the identities by which an export names the
targets of references.
-/

namespace MonitorExport.Store

/-- Owners from the nearest outwards, at most `fuel` of them, up to a document. -/
def ancestorsWithin (s : Store) : Nat → EntityId → List EntityId
  | 0, _ => []
  | fuel + 1, e =>
    match s.owner e with
    | none => []
    | some o => if s.isDocument o then [] else o :: s.ancestorsWithin fuel o

/-- Owners from the nearest outwards, up to a document. There are fewer than entities in the store,
unless ownership is circular. -/
def ancestors (s : Store) (e : EntityId) : List EntityId :=
  s.ancestorsWithin s.entities.size e

def documentHost (s : Store) (e : EntityId) : Option EntityId :=
  (s.ancestors e).find? fun a => ((s.owner a).map s.isDocument).getD false

def hostScope (s : Store) (e : EntityId) : Option EntityId :=
  (s.ancestors e).find? fun a => (s.schemaOf a).hostScope

/-- The host that completes the references of an entity: the one in the document, else the nearest. -/
def stampingHost (s : Store) (e : EntityId) : Option EntityId :=
  s.documentHost e <|> s.hostScope e

/-- Whether two entities agree in a field: both have it unset, or both have values that are loosely
equal. -/
def agree (s : Store) (a b : EntityId) (field : String) : Bool :=
  match s.get a field, s.get b field with
  | .ok (some v), .ok (some w) => v.looseEq w
  | .ok none, .ok none => true
  | _, _ => false

/-- The equality of collections: one entity, or two of related models that agree in the fields which
both models name as their identity. -/
def sameIdentity (s : Store) (a b : EntityId) : Bool :=
  a = b ||
    let identity := (s.schemaOf a).identity
    !identity.isEmpty && identity == (s.schemaOf b).identity &&
      (s.isA (s.model a) (s.model b) || s.isA (s.model b) (s.model a)) &&
      identity.all (s.agree a b)

def hostNameField : String := "name"

/-- An identity completed by the name of a host, if there is one and it has a name. -/
def withHost (s : Store) (identity : Identity) : Option EntityId → Except ConfigError Identity
  | none => .ok identity
  | some host => do
    match ← s.get host hostNameField with
    | some name => return identity.insert "host" name
    | none => return identity

/-- The identity of an entity as the target of a reference. -/
def identity (s : Store) (e : EntityId) : Except ConfigError Identity := do
  let schema := s.schemaOf e
  match schema.reference with
  | none => throw (.unreferenceable schema.name)
  | some shape =>
    match ← s.get e shape.field with
    | none => throw (.unnamedTarget schema.name shape.field)
    | some v => s.withHost (Entries.empty.insert shape.key v) (s.hostScope e)

/-- Whether a reference is completed by the host of its owner. -/
def appendsHost (s : Store) (e : EntityId) (index : Nat) : Bool :=
  match s.kind e index with
  | .reference _ appendHost => appendHost
  | _ => false

/-- The identity that a reference stands for. A literal is taken as it is given; if the reference asks
for it, a missing host is the host of the owner. -/
def resolve (s : Store) (e : EntityId) (index : Nat) : Except ConfigError Identity := do
  let identity ← match s.binding e index with
    | .entity target => s.identity target
    | .literal identity => pure identity
    | .unbound => throw (.danglingReference (s.schemaOf e).name (s.fieldName e index))
  if s.appendsHost e index && !identity.contains "host" then
    s.withHost identity (s.stampingHost e)
  else
    return identity

end MonitorExport.Store
