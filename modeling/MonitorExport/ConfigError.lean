import MonitorExport.Validation.Error

/-!
Why an operation on entities fails. Texts that describe inputs are made where the error arises.
-/

namespace MonitorExport

/-- A failure of an operation on entities or of a compilation. -/
inductive ConfigError where
  /-- The value given for a field is refused, and nothing is stored. -/
  | invalidValue (model field : String) (reason : ValidationError)
  /-- The model declares no such field. -/
  | unknownField (model field : String)
  /-- A bare value was given to a model without a field for it. -/
  | noPositional (model input : String)
  /-- An entity of the model `actual` was given to a collection of another model. -/
  | wrongModel (element input actual : String)
  /-- No member of a collection can be built from the input. -/
  | unfitElement (element input : String) (cause : ConfigError)
  /-- The input is none of those that a member can be made of. -/
  | noElement (element input : String)
  /-- A reference was resolved that is bound to nothing. -/
  | danglingReference (model field : String)
  /-- A model without a referencing field was referenced. -/
  | unreferenceable (model : String)
  /-- The field by which an entity is referenced is not set. -/
  | unnamedTarget (model field : String)
  /-- The registry has no such model. -/
  | unknownModel (name : String)
  /-- Sizes of the model are given by one another in a circle. -/
  | circularSize (model field : String)
  /-- Members of the model nest deeper than they are built. -/
  | endlessNesting (model : String)

namespace ConfigError

/-- The sentence shown to people. -/
def message : ConfigError → String
  | .invalidValue model field reason => s!"{model}.{field} does not validate: {reason.message}"
  | .unknownField model field => s!"field {field} for {model} is not defined"
  | .noPositional model input => refused model input "model takes no positional value"
  | .wrongModel element input actual => refused element input s!"{actual} is not a {element}"
  | .unfitElement element input cause => refused element input cause.message
  | .noElement element input => refused element input "expected an entity, a mapping or a value"
  | .danglingReference model field => s!"reference {model}.{field} is not bound to anything"
  | .unreferenceable model => s!"{model} cannot be referenced: model declares no reference identity"
  | .unnamedTarget model field => s!"{model} cannot be referenced: {field} is not set"
  | .unknownModel name => s!"model {name} is not declared"
  | .circularSize model field => s!"size {model}.{field} depends on itself"
  | .endlessNesting model => s!"members of {model} nest without end"
where
  /-- The sentence for an input that a collection refuses. -/
  refused (element input reason : String) : String :=
    s!"unable to add {input} to a collection of {element}: {reason}"

end ConfigError

end MonitorExport
