import MonitorExport.Store.Edit

/-!
Building and hydrating entities from inputs. All inputs of a step are checked and turned into changes
before any of them is written, and a step that fails gives up the entities that were built for it, so it
leaves what was there as it was.
-/

namespace MonitorExport

/-- A step on the store that may fail. The store after a failure is the one at that point. -/
abbrev Edit := ExceptT ConfigError (StateM Store)

namespace Edit

def ofRead {α : Type} (read : Store → Except ConfigError α) : Edit α :=
  fun s => (read s, s)

def store : Edit Store :=
  fun s => (.ok s, s)

def ofChange {α : Type} (change : Store → Store × α) : Edit α :=
  fun s => let (s, a) := change s; (.ok a, s)

def apply (change : Store → Store) : Edit Unit :=
  fun s => (.ok (), change s)

/-- A step that gives up the entities it made if it fails. -/
def orRelease {α : Type} (step : Edit α) : Edit α := fun s =>
  match step s with
  | (.ok a, after) => (.ok a, after)
  | (.error e, after) => (.error e, after.releaseSince s.entities.size)

end Edit

/-- A write whose input was checked. -/
inductive Change where
  | scalar (index : Nat) (stored : Option Value)
  | members (index : Nat) (candidates : List Store.Candidate)
  | bind (index : Nat) (bound : Binding)

/-- A constructor of entities: a model, the input for its bare value, and fields. -/
abbrev Builder := ModelId → Input → Fields → Edit EntityId

namespace Store

/-- The bare value of an entity joins the fields under the name that the model has for it. -/
def withPositional (s : Store) (m : ModelId) (positional : Input) (fields : Fields) :
    Except ConfigError Fields :=
  if positional.isNull then .ok fields else
  match (s.schema m).positional with
  | some name => .ok (fields.insert name positional)
  | none => .error (.noPositional (s.schema m).name (s.describeInput positional))

/-- The fields of a new entity after the preparations of its model. -/
def prepare (s : Store) (m : ModelId) (positional : Input) (fields : Fields) :
    Except ConfigError Fields := do
  let fields ← s.withPositional m positional fields
  (s.schema m).preparations.foldlM (fun fields step => step s.view fields) fields

/-- A step that fails for another reason, which tells of the first one. -/
def refusing {α : Type} (reason : ConfigError → ConfigError) (step : Edit α) : Edit α :=
  tryCatch step fun cause => throw (reason cause)

/-- Turns an input into an entity for a collection, without attaching it. -/
def coerceMember (build : Builder) (c : CollectionId) (input : Input) : Edit Candidate := do
  let s ← Edit.store
  let element := s.target c.owner c.field
  let name := (s.schema element).name
  let described := s.describeInput input
  match input with
  | .entity e =>
    if s.isA (s.model e) element then return ⟨e, false⟩
    else throw (.wrongModel name described (s.schemaOf e).name)
  | .mapping fields =>
    return ⟨← refusing (.unfitElement name described) (build element .null fields), true⟩
  | .value v =>
    return ⟨← refusing (.unfitElement name described) (build element (.value v) .empty), true⟩
  | _ => throw (.noElement name described)

/-- The literal identity that a mapping gives for a reference. -/
def literal (refused : String → ConfigError) (s : Store) :
    List (String × Input) → Identity → Except ConfigError Identity
  | [], identity => .ok identity
  | (key, .value v) :: rest, identity => literal refused s rest (identity.insert key v)
  | (key, input) :: _, _ => .error (refused s!"{key} = {s.describeInput input}")

/-- Turns an input into a binding for a reference. -/
def coerceBinding (s : Store) (e : EntityId) (index : Nat) (input : Input) :
    Except ConfigError Binding :=
  let target := s.target e index
  let refused := fun described => ConfigError.invalidValue (s.schemaOf e).name (s.fieldName e index)
    (.notReference described (s.schema target).name)
  match input with
  | .null => .ok .unbound
  | .entity x =>
    if s.isA (s.model x) target then .ok (.entity x) else .error (refused (s.describe x))
  | .mapping fields => (literal refused s fields.pairs .empty).map .literal
  | input => .error (refused (s.describeInput input))

/-- Turns an input into a value for a scalar field. -/
def coerceScalar (s : Store) (e : EntityId) (index : Nat) (input : Input) :
    Except ConfigError (Option Value) :=
  let refused := ConfigError.invalidValue (s.schemaOf e).name (s.fieldName e index)
  match input with
  | .null => .ok none
  | .value v =>
    match Validator.runChain (((s.field? e index).map (·.validators)).getD []) v with
    | .ok w => .ok (some w)
    | .error reason => .error (refused reason)
  | input => .error (refused (.notScalar (s.describeInput input)))

/-- The inputs for the members of a collection: those of a list, none, or one. -/
def memberInputs : Input → List Input
  | .null => []
  | .list items => items
  | input => [input]

/-- Checks the input for a field and turns it into a change. -/
def stage (build : Builder) (e : EntityId) (index : Nat) (input : Input) : Edit Change := do
  let s ← Edit.store
  match s.slot e index with
  | .scalar _ => return .scalar index (← Edit.ofRead fun s => s.coerceScalar e index input)
  | .members _ => return .members index (← (memberInputs input).mapM (coerceMember build ⟨e, index⟩))
  | .binding _ => return .bind index (← Edit.ofRead fun s => s.coerceBinding e index input)

/-- Writes a change. Members are added to those that are there, or take their place. -/
def commit (s : Store) (e : EntityId) (replace : Bool) : Change → Store
  | .scalar index stored => s.setSlot e index (.scalar stored)
  | .members index candidates =>
    let c : CollectionId := ⟨e, index⟩
    ((if replace then s.clear c else s).insertAll c candidates).1
  | .bind index bound => s.rebind e index bound

/-- Writes changes in order, adding members to those that are there. -/
def commitAll (s : Store) (e : EntityId) (changes : List Change) : Store :=
  changes.foldl (fun s change => s.commit e false change) s

/-- Looks a field up, then checks the input for it. -/
def stageField (build : Builder) (e : EntityId) (field : String) (input : Input) : Edit Change := do
  let index ← Edit.ofRead fun s => s.fieldIndex e field
  stage build e index input

/-- Looks every key up, then checks every input. -/
def stageFields (build : Builder) (e : EntityId) (fields : Fields) : Edit (List Change) := do
  let indices ← Edit.ofRead fun s => fields.keys.mapM (s.fieldIndex e)
  (indices.zip (fields.pairs.map (·.2))).mapM fun (index, input) => stage build e index input

/-- Hydrates an entity: every key is looked up, then every input is checked, then all is written. -/
def updateWith (build : Builder) (e : EntityId) (fields : Fields) : Edit Unit := do
  let changes ← stageFields build e fields
  Edit.apply fun s => s.commitAll e changes

/-- Builds an entity whose members nest at most `fuel` deep. -/
def buildWithin : Nat → Builder
  | 0, m, _, _ => do throw (.endlessNesting ((← Edit.store).schema m).name)
  | fuel + 1, m, positional, fields => do
    let fields ← Edit.ofRead fun s => s.prepare m positional fields
    let e ← Edit.ofChange fun s => s.create m
    updateWith (buildWithin fuel) e fields
    return e

/-- Builds an entity whose members nest as deep at most as a limit says that is drawn from the registries. -/
def buildTo (limit : List Registry → Nat) : Builder :=
  fun m positional fields => do buildWithin (limit (← Edit.store).registries) m positional fields

/-- How deep members nest that are built from inputs, if no preparation makes an input that is deeper than
what it was given: a mapping holds less than itself, and a bare value starts at most one build for each
model, because a second one would start a third. -/
def nestingLimit (inputs : List Input) (registries : List Registry) : Nat :=
  Input.depthOfList inputs + registries.foldl (fun n r => n + r.size) 0 + 1

def builderFor (inputs : List Input) : Builder :=
  buildTo (nestingLimit inputs)

/-- Builds an entity from the input for its bare value and from fields. -/
def build (m : ModelId) (positional : Input) (fields : Fields) : Edit EntityId :=
  .orRelease (builderFor [positional, .mapping fields] m positional fields)

/-- A new entity with the defaults of a model. -/
def instantiate (registry : Nat) (name : String) : Edit EntityId := do
  let m ← Edit.ofRead fun s => s.findModel registry name
  Edit.ofChange fun s => s.create m

/-- Hydrates an entity, the members that are built nesting up to a limit. -/
def updateTo (limit : List Registry → Nat) (e : EntityId) (fields : Fields) : Edit Unit :=
  .orRelease (updateWith (buildTo limit) e fields)

/-- Hydrates an entity. Members are added to those that are there. -/
def update (e : EntityId) (fields : Fields) : Edit Unit :=
  updateTo (nestingLimit [.mapping fields]) e fields

/-- Assigns a field. Members take the place of those that are there. -/
def assign (e : EntityId) (field : String) (input : Input) : Edit Unit := .orRelease do
  let change ← stageField (builderFor [input]) e field input
  Edit.apply fun s => s.commit e true change

/-- Adds a member to a collection, which is built up to a limit if it is new. -/
def addTo (limit : List Registry → Nat) (c : CollectionId) (input : Input) : Edit EntityId := .orRelease do
  let x ← coerceMember (buildTo limit) c input
  Edit.ofChange fun s => s.insert c x

/-- Adds a member to a collection. Returns the equal one if there is one. -/
def add (c : CollectionId) (input : Input) : Edit EntityId :=
  addTo (nestingLimit [input]) c input

/-- Adds a new entity to a collection. Returns the equal member if there is one. -/
def addBuilt (c : CollectionId) (e : EntityId) : Edit EntityId := do
  let x ← coerceMember (builderFor []) c (.entity e)
  Edit.ofChange fun s => s.insert c { x with isNew := true }

/-- Adds members to a collection, all or none, each of them built up to its own limit if it is new. -/
def extendTo (limit : Input → List Registry → Nat) (c : CollectionId) (inputs : List Input) :
    Edit (List EntityId) := .orRelease do
  let xs ← inputs.mapM fun input => coerceMember (buildTo (limit input)) c input
  Edit.ofChange fun s => s.insertAll c xs

/-- Adds members to a collection, all or none. -/
def extend (c : CollectionId) (inputs : List Input) : Edit (List EntityId) :=
  extendTo (fun input => nestingLimit [input]) c inputs

/-- Builds a member of a collection and adds it. -/
def addNew (c : CollectionId) (positional : Input) (fields : Fields) : Edit EntityId := do
  let m ← Edit.ofRead fun s => .ok (s.target c.owner c.field)
  let e ← build m positional fields
  Edit.ofChange fun s => s.placeNew c e

/-- Detaches the member equal to what an input gives. Returns whether there was one. -/
def discard (c : CollectionId) (input : Input) : Edit Bool := .orRelease do
  let x ← coerceMember (builderFor [input]) c input
  let found ← Edit.ofChange fun s => s.detach c x.entity
  if x.isNew then Edit.apply fun s => s.release x.entity
  return found

/-- Binds a reference to an entity or to a literal identity, or to nothing. -/
def bind (e : EntityId) (index : Nat) (input : Input) : Edit Unit := do
  let bound ← Edit.ofRead fun s => s.coerceBinding e index input
  Edit.apply fun s => s.rebind e index bound

end Store

end MonitorExport
