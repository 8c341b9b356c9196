import MonitorExport.Value

/-!
Why a value is refused. Every cause has a short code and a message; the texts of inputs that are not
scalars are described where they arise and kept as they are.
-/

namespace MonitorExport

/-- A reason to refuse the value of one field. -/
inductive ValidationError where
  /-- The value is neither a code nor a label of the choices. -/
  | notAllowed (value : Value)
  | notInteger (value : Value)
  | belowMinimum (number minimum : Int)
  /-- The text is not digits with at most one letter for the unit. -/
  | notPeriod (text : String)
  /-- The amount of the period does not fit 64 bits. -/
  | periodOutOfRange (text : String)
  /-- The value is of a kind that no period is written in. -/
  | noPeriodKind (value : Value)
  | notScalar (input : String)
  /-- A field of the kind `label` was used as `wanted`. -/
  | wrongKind (field label wanted : String)
  /-- The input is no entity of the model `target` and no literal identity. -/
  | notReference (input target : String)
  | notAddress (input : String)
  | notPort (text : String)
  /-- A parameter of an aggregate item is not `wanted`. -/
  | aggregateParameter (wanted input : String)
  /-- An entity given as a group of an aggregate item has no name. -/
  | namelessGroup (entity : String)
  /-- A reason of a validator declared outside this library. -/
  | custom (code message : String)

namespace ValidationError

/-- The code by which programs tell the reasons apart. -/
def code : ValidationError → String
  | .notAllowed _ => "choice"
  | .notInteger _ => "not_integer"
  | .belowMinimum _ _ => "min"
  | .notPeriod _ | .periodOutOfRange _ | .noPeriodKind _ => "timeperiod"
  | .notScalar _ | .notAddress _ => "type"
  | .wrongKind _ _ _ => "kind"
  | .notReference _ _ => "reference"
  | .notPort _ => "port"
  | .aggregateParameter _ _ | .namelessGroup _ => "aggregate"
  | .custom code _ => code

/-- The sentence shown to people. -/
def message : ValidationError → String
  | .notAllowed v => s!"value {v.describe} is not allowed"
  | .notInteger v => s!"value {v.describe} is not an integer"
  | .belowMinimum number minimum => s!"value {number} must be greater than or equal to {minimum}"
  | .notPeriod text => s!"{Text.quoted text} cannot be parsed as a timeperiod"
  | .periodOutOfRange text => s!"{Text.quoted text} is out of range"
  | .noPeriodKind v => s!"{v.describe} cannot be cast to a timeperiod"
  | .notScalar input => s!"expected a scalar, got {input}"
  | .wrongKind field label wanted => s!"{field} is a {label} field, not {wanted}"
  | .notReference input target => s!"{input} is neither a {target} nor a literal identity"
  | .notAddress input => s!"expected an address, got {input}"
  | .notPort text => s!"{Text.quoted text} is not a port number"
  | .aggregateParameter wanted input => s!"expected {wanted}, got {input}"
  | .namelessGroup entity => s!"{entity} has no name"
  | .custom _ message => message

end ValidationError

end MonitorExport
