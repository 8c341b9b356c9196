import MonitorExport.ConfigError
import MonitorExport.Input
import MonitorExport.Schema.Field

/-!
Declarations of models, and models whose names are resolved and whose inherited fields are merged.
-/

namespace MonitorExport

/-- The values by which others reference an entity: the field read from it and the key written. -/
structure ReferenceShape where
  field : String
  key : String
deriving DecidableEq

/-- How a compilation lays out the members of a collection. -/
inductive Arrangement where
  /-- Members are numbered in the field `position`. -/
  | sequence (items position : String)
  /-- Members are laid out row by row, with the columns given by a field of the owner, and their column
  and row go to the fields `x` and `y`. -/
  | grid (items columns x y : String)
deriving DecidableEq

/-- The field that holds the members. -/
def Arrangement.items : Arrangement → String
  | .sequence items _ => items
  | .grid items _ _ _ => items

/-- What may be asked about live entities while the fields of a new one are prepared. -/
structure EntityView where
  /-- The text by which messages show an entity. -/
  describe : EntityId → String
  /-- The text of an entity's field `name`. -/
  nameOf : EntityId → Option String

/-- The text by which messages show an input. -/
def EntityView.describeInput (view : EntityView) : Input → String
  | .null => "null"
  | .value v => v.describe
  | .entity e => view.describe e
  | .list items => s!"list of {items.length} inputs"
  | .mapping fields => s!"mapping with keys {Text.quotedList fields.keys}"

/-- A step that changes the fields given for a new entity before they are used. -/
abbrev Preparation := EntityView → Fields → Except ConfigError Fields

/-- A declaration of a model. -/
structure ModelDecl where
  name : String
  fields : List (String × Field)
  tag : Option String := none
  extends? : Option String := none
  identity : Option (List String) := none
  positional : Option String := none
  reference : Option ReferenceShape := none
  hostScope : Option Bool := none
  document : Bool := false
  preparation : Option Preparation := none
  arrangement : Option Arrangement := none

namespace ModelDecl

/-- Gives the fields positions from `start`, in order. -/
def numberFields (start : Nat) : List (String × Field) → List (String × Field)
  | [] => []
  | (name, field) :: rest =>
    (name, { field with position := start }) :: numberFields (start + 1) rest

/-- Gives the fields of all declarations positions from `start`, in the order written. -/
def numberFrom (start : Nat) : List ModelDecl → List ModelDecl
  | [] => []
  | decl :: rest =>
    { decl with fields := numberFields start decl.fields }
      :: numberFrom (start + decl.fields.length) rest

/-- Gives the fields of all declarations positions in the order written. -/
def number (decls : List ModelDecl) : List ModelDecl :=
  numberFrom 0 decls

end ModelDecl

/-- A field of a resolved model. -/
structure FieldSchema where
  name : String
  position : Nat
  kind : FieldKind
  /-- The model of the members or of the target, by its place in the registry. -/
  target : Option Nat
  default? : Option Value
  choices : List Choice
  description : Option String
  /-- The declared validators, then the choices if there are any. -/
  validators : List Validator

/-- A resolved model. -/
structure ModelSchema where
  name : String
  tag : String
  /-- The merged table of fields, by position. -/
  fields : List FieldSchema
  identity : List String
  positional : Option String
  reference : Option ReferenceShape
  hostScope : Bool
  document : Bool
  arrangement : Option Arrangement
  /-- The preparations along the lineage, the outermost ancestor's first. -/
  preparations : List Preparation
  /-- The model and its ancestors, the model first, by their places in the registry. -/
  lineage : List Nat

namespace ModelSchema

/-- A model without a name and without fields. -/
def blank : ModelSchema where
  name := ""
  tag := ""
  fields := []
  identity := []
  positional := none
  reference := none
  hostScope := false
  document := false
  arrangement := none
  preparations := []
  lineage := []

instance : Inhabited ModelSchema := ⟨blank⟩

def fieldIndex? (m : ModelSchema) (name : String) : Option Nat :=
  m.fields.findIdx? fun field => field.name = name

end ModelSchema

end MonitorExport
