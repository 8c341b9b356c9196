import MonitorExport.Schema.Registry

/-!
The store of live entities. An entity has a slot for each field of its model; a collection is named by
the entity and the field that hold it, and its members link back to it.
-/

namespace MonitorExport

/-- The name of a model: the registry that has it and its place there. -/
structure ModelId where
  registry : Nat
  index : Nat
deriving DecidableEq, Inhabited

/-- The name of a collection: the entity that owns it and the place of its field. -/
structure CollectionId where
  owner : EntityId
  field : Nat
deriving DecidableEq, Inhabited

/-- What a reference points at. -/
inductive Binding where
  | unbound
  | entity (target : EntityId)
  | literal (identity : Identity)

/-- What an entity holds for one field. -/
inductive Slot where
  | scalar (stored : Option Value)
  | members (entities : List EntityId)
  | binding (bound : Binding)

/-- A live entity. -/
structure Entity where
  model : ModelId
  slots : List Slot
  /-- The collection that the entity belongs to. -/
  parent : Option CollectionId

instance : Inhabited Entity := ⟨⟨default, [], none⟩⟩

/-- The registries in use, and the entities made so far. -/
structure Store where
  registries : List Registry
  entities : Array Entity

namespace Store

def ofRegistries (registries : List Registry) : Store :=
  ⟨registries, #[]⟩

instance : Inhabited Store := ⟨ofRegistries []⟩

def registry (s : Store) (index : Nat) : Registry :=
  s.registries.getD index default

def schema (s : Store) (m : ModelId) : ModelSchema :=
  (s.registry m.registry).models.getD m.index default

/-- The model of a name in a registry. -/
def findModel (s : Store) (registry : Nat) (name : String) : Except ConfigError ModelId :=
  match (s.registry registry).index? name with
  | some index => .ok ⟨registry, index⟩
  | none => .error (.unknownModel name)

/-- Whether the model `a` is `b` or one of its subtypes. Models of different registries never are. -/
def isA (s : Store) (a b : ModelId) : Bool :=
  a.registry = b.registry && (s.schema a).lineage.contains b.index

def entity (s : Store) (e : EntityId) : Entity :=
  s.entities.getD e.index default

def model (s : Store) (e : EntityId) : ModelId :=
  (s.entity e).model

def schemaOf (s : Store) (e : EntityId) : ModelSchema :=
  s.schema (s.model e)

def isDocument (s : Store) (e : EntityId) : Bool :=
  (s.schemaOf e).document

def parent (s : Store) (e : EntityId) : Option CollectionId :=
  (s.entity e).parent

def owner (s : Store) (e : EntityId) : Option EntityId :=
  (s.parent e).map (·.owner)

def slot (s : Store) (e : EntityId) (index : Nat) : Slot :=
  (s.entity e).slots.getD index (.scalar none)

def field? (s : Store) (e : EntityId) (index : Nat) : Option FieldSchema :=
  (s.schemaOf e).fields[index]?

def kind (s : Store) (e : EntityId) (index : Nat) : FieldKind :=
  ((s.field? e index).map (·.kind)).getD .scalar

def fieldName (s : Store) (e : EntityId) (index : Nat) : String :=
  ((s.field? e index).map (·.name)).getD ""

/-- The model of the members or of the target of the field at a place of an entity's table. -/
def target (s : Store) (e : EntityId) (index : Nat) : ModelId :=
  ⟨(s.model e).registry, ((s.field? e index).bind (·.target)).getD 0⟩

/-- The members of a collection in order. -/
def members (s : Store) (c : CollectionId) : List EntityId :=
  match s.slot c.owner c.field with
  | .members entities => entities
  | _ => []

/-- What a reference is bound to. -/
def binding (s : Store) (e : EntityId) (index : Nat) : Binding :=
  match s.slot e index with
  | .binding bound => bound
  | _ => .unbound

def modify (s : Store) (e : EntityId) (change : Entity → Entity) : Store :=
  { s with entities := s.entities.modify e.index change }

def setSlot (s : Store) (e : EntityId) (index : Nat) (slot : Slot) : Store :=
  s.modify e fun entity => { entity with slots := entity.slots.set index slot }

/-- The store with the link of an entity to its collection replaced. -/
def setParent (s : Store) (e : EntityId) (parent : Option CollectionId) : Store :=
  s.modify e fun entity => { entity with parent }

/-- The slot of a field in a new entity: the default, no members, or no binding. -/
def freshSlot (field : FieldSchema) : Slot :=
  match field.kind, field.target with
  | .set _ _ _, some _ => .members []
  | .reference _ _, some _ => .binding .unbound
  | _, _ => .scalar field.default?

/-- A new entity of a model, with its defaults. -/
def create (s : Store) (m : ModelId) : Store × EntityId :=
  ({ s with entities := s.entities.push ⟨m, (s.schema m).fields.map freshSlot, none⟩ },
    ⟨s.entities.size⟩)

end Store

end MonitorExport
