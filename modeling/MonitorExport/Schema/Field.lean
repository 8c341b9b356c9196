import MonitorExport.Validation.Validator

/-!
Declarations of fields, and how the declaration of a subtype overrides an inherited one.
-/

namespace MonitorExport

/-- What a field holds. -/
inductive FieldKind where
  /-- A plain value. -/
  | scalar
  /-- A number with a lower bound. -/
  | fixedSize (minimum : Int)
  /-- A number of rows, counted from the members of `items` in rows of `size` unless it is set. -/
  | elastic (size items : String)
  /-- A colour, drawn from the palette unless it is set. -/
  | color
  /-- Entities of a model. The elements of an export are tagged `tag`, if given, and are written for an
  empty collection too if `allowEmpty`. -/
  | set (model : String) (allowEmpty : Bool) (tag : Option String)
  /-- One entity of a model or a literal identity; `appendHost` completes it by the host. -/
  | reference (model : String) (appendHost : Bool)
deriving DecidableEq

namespace FieldKind

/-- Whether the field holds a value, not entities. -/
def isScalar : FieldKind → Bool
  | .set _ _ _ | .reference _ _ => false
  | _ => true

/-- The name of the kind. -/
def label : FieldKind → String
  | .scalar => "scalar"
  | .fixedSize _ => "fixed-size"
  | .elastic _ _ => "elastic"
  | .color => "color"
  | .set _ _ _ => "set"
  | .reference _ _ => "reference"

end FieldKind

/-- A declaration of a field. Tables of fields are ordered by position. -/
structure Field where
  position : Nat
  kind : FieldKind
  default? : Option Value
  choices : List Choice
  validators : List Validator
  description : Option String

namespace Field

/-- A field of a kind, with nothing else declared. -/
def ofKind (kind : FieldKind) : Field :=
  ⟨0, kind, none, [], [], none⟩

def plain : Field := ofKind .scalar

/-- A field with a lower bound, which is its default too. -/
def fixedSize (minimum : Int) : Field :=
  { ofKind (.fixedSize minimum) with default? := some (.int minimum), validators := [.min minimum] }

def elastic (size items : String) : Field := ofKind (.elastic size items)

def color : Field := ofKind .color

def set (model : String) : Field := ofKind (.set model false none)

def reference (model : String) : Field := ofKind (.reference model false)

def withDefault (f : Field) (v : Value) : Field :=
  { f with default? := some v }

def withChoices (f : Field) (choices : List Choice) : Field :=
  { f with choices }

def withValidator (f : Field) (v : Validator) : Field :=
  { f with validators := f.validators ++ [v] }

def describedAs (f : Field) (description : String) : Field :=
  { f with description := some description }

/-- The set written even without members; other kinds stay as they are. -/
def allowingEmpty (f : Field) : Field :=
  match f.kind with
  | .set model _ tag => { f with kind := .set model true tag }
  | _ => f

/-- The set with a tag for its members; other kinds stay as they are. -/
def tagged (f : Field) (tag : String) : Field :=
  match f.kind with
  | .set model allowEmpty _ => { f with kind := .set model allowEmpty (some tag) }
  | _ => f

/-- The reference completed by the host; other kinds stay as they are. -/
def appendingHost (f : Field) : Field :=
  match f.kind with
  | .reference model _ => { f with kind := .reference model true }
  | _ => f

def oneOf (f : Field) (choices : List (Int × String)) : Field :=
  f.withChoices (choices.map fun choice => ⟨.int choice.1, choice.2⟩)

/-- `f` as the declaration that overrides `inherited`. It takes over the position, and, if the kinds
are equal, the default, choices and validators that it does not declare; the description is taken
over in any case. -/
def overriding (f inherited : Field) : Field :=
  let sameKind := f.kind = inherited.kind
  { position := inherited.position
    kind := f.kind
    default? := if sameKind then f.default? <|> inherited.default? else f.default?
    choices := if sameKind ∧ f.choices.isEmpty then inherited.choices else f.choices
    validators := if sameKind ∧ f.validators.isEmpty then inherited.validators else f.validators
    description := f.description <|> inherited.description }

end Field

end MonitorExport
