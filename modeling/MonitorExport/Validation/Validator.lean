import MonitorExport.Validation.Error

/-!
Validators: checks of a value that may also normalise it. A field runs its chain of validators in
order, each on the result of the one before.
-/

namespace MonitorExport

/-- An allowed code of a field and the label that stands for it. -/
structure Choice where
  code : Value
  label : String

/-- Whether a value picks the choice, by its code or by its label. -/
def Choice.accepts (c : Choice) (v : Value) : Bool :=
  v.looseEq c.code || v.text? == some c.label

/-- A step of a chain. -/
inductive Validator where
  /-- Replaces a code or a label by the code of the first choice that it picks. -/
  | choice (choices : List Choice)
  /-- Turns the value into an integer that is not below `minimum`. -/
  | min (minimum : Int)
  /-- A check declared outside this library. -/
  | custom (name : String) (check : Value → Except ValidationError Value)

namespace Validator

/-- The name by which a validator is listed. -/
def name : Validator → String
  | .choice _ => "choice"
  | .min _ => "min"
  | .custom name _ => name

/-- Checks and normalises a value. -/
def validate : Validator → Value → Except ValidationError Value
  | .choice choices, v =>
    match choices.find? (·.accepts v) with
    | some picked => .ok picked.code
    | none => .error (.notAllowed v)
  | .min minimum, v =>
    match v.toInt? with
    | none => .error (.notInteger v)
    | some n => if n < minimum then .error (.belowMinimum n minimum) else .ok (.int n)
  | .custom _ check, v => check v

def runChain (chain : List Validator) (v : Value) : Except ValidationError Value :=
  chain.foldlM (fun v validator => validator.validate v) v

end Validator

end MonitorExport
