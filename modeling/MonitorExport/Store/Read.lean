import MonitorExport.Palette
import MonitorExport.Store.Basic

/-!
Reading fields of live entities, and the texts by which messages show them.
-/

namespace MonitorExport.Store

/-- The place of a field in an entity's table. -/
def fieldIndex (s : Store) (e : EntityId) (field : String) : Except ConfigError Nat :=
  match (s.schemaOf e).fieldIndex? field with
  | some index => .ok index
  | none => .error (.unknownField (s.schemaOf e).name field)

/-- The failure of using a field as another kind than it is. -/
def wrongKind (s : Store) (e : EntityId) (index : Nat) (wanted : String) : ConfigError :=
  let name := s.fieldName e index
  .invalidValue (s.schemaOf e).name name (.wrongKind name (s.kind e index).label wanted)

/-- The collection of an entity's field. -/
def collection (s : Store) (e : EntityId) (field : String) : Except ConfigError CollectionId := do
  let index ← s.fieldIndex e field
  match s.slot e index with
  | .members _ => return ⟨e, index⟩
  | _ => throw (s.wrongKind e index "a set")

/-- The place of an entity's reference. -/
def reference (s : Store) (e : EntityId) (field : String) : Except ConfigError Nat := do
  let index ← s.fieldIndex e field
  match s.slot e index with
  | .binding _ => return index
  | _ => throw (s.wrongKind e index "a reference")

/-- The value stored at a place of an entity's table. -/
def stored (s : Store) (e : EntityId) (index : Nat) : Except ConfigError (Option Value) :=
  match s.slot e index with
  | .scalar stored => .ok stored
  | _ => .error (s.wrongKind e index "a scalar")

/-- Whether a stored size counts: it is a positive integer. -/
def isSize (stored : Option Value) : Bool :=
  match stored.bind Value.toInt? with
  | some n => 0 < n
  | none => false

/-- The width of a row that a field gives: at least one, and one if it gives none. -/
def rowWidth (v : Option Value) : Int :=
  max 1 ((v.bind Value.toInt?).getD 1)

/-- The number of rows that `count` members fill, at least one. -/
def rowCount (count : Nat) (width : Int) : Int :=
  max 1 ((count + width - 1) / width)

/-- The value of a scalar field. The rows of an elastic field are counted from the width that another
field gives, which may be elastic itself: `fuel` bounds the chain of such fields. -/
def readWithin (s : Store) (e : EntityId) : Nat → Nat → Except ConfigError (Option Value)
  | fuel, index => do
    let stored ← s.stored e index
    match s.kind e index with
    | .elastic size items =>
      if isSize stored then return stored
      let c ← s.collection e items
      let sizeIndex ← s.fieldIndex e size
      match fuel with
      | 0 => throw (.circularSize (s.schemaOf e).name (s.fieldName e index))
      | fuel + 1 =>
        let width ← s.readWithin e fuel sizeIndex
        return some (.int (rowCount (s.members c).length (rowWidth width)))
    | _ => return stored

/-- The value of the scalar field at a place of an entity's table. A chain of elastic fields longer
than the table is circular. -/
def read (s : Store) (e : EntityId) (index : Nat) : Except ConfigError (Option Value) :=
  s.readWithin e (s.schemaOf e).fields.length index

def get (s : Store) (e : EntityId) (field : String) : Except ConfigError (Option Value) := do
  s.read e (← s.fieldIndex e field)

/-- The value of the scalar field at a place, drawn from the palette if it is an unset colour. -/
def readDrawing (s : Store) (e : EntityId) (index : Nat) (palette : Palette) :
    Except ConfigError (Option Value × Palette) :=
  match s.kind e index, s.slot e index with
  | .color, .scalar none =>
    let (color, palette) := palette.draw
    .ok (some (.text color), palette)
  | _, _ => (s.read e index).map (·, palette)

/-- The value of a scalar field, drawn from the palette if it is an unset colour. -/
def getDrawing (s : Store) (e : EntityId) (field : String) (palette : Palette) :
    Except ConfigError (Option Value × Palette) := do
  s.readDrawing e (← s.fieldIndex e field) palette

/-- The rendered value of a field that is a scalar and set. -/
def text? (s : Store) (e : EntityId) (field : String) : Option String :=
  match s.get e field with
  | .ok (some v) => some v.render
  | _ => none

/-- The text of the field that labels an entity: the one for bare values, else the first by which it
is identified. -/
def label? (s : Store) (e : EntityId) : Option String :=
  ((s.schemaOf e).positional <|> (s.schemaOf e).identity.head?).bind (s.text? e)

/-- The text by which messages show an entity: its model and its label. One without a label has a
question mark in place of an address. -/
def describe (s : Store) (e : EntityId) : String :=
  let name := (s.schemaOf e).name
  match s.label? e with
  | some label => s!"{name}({Text.quoted label})"
  | none => s!"{name}(0x?)"

/-- What preparations may ask about the entities of the store. -/
def view (s : Store) : EntityView where
  describe := s.describe
  nameOf e := s.text? e "name"

def describeInput (s : Store) (input : Input) : String :=
  s.view.describeInput input

end MonitorExport.Store
