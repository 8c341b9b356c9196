import MonitorExport.Schema.Model

/-!
Preparations shared by models, and shorthands for the fields of the catalogue.
-/

namespace MonitorExport

/-- Gives the field `target` what the field `source` is given, unless it is given something itself. -/
def Preparation.fillFrom (source target : String) : Preparation := fun _ fields =>
  match fields.get? source with
  | some input => .ok (fields.setDefault target input)
  | none => .ok fields

/-- Takes what the field `name` is given, unless it is null, as given for `field`. -/
def Preparation.takeAlias (name field : String) : Preparation := fun _ fields =>
  match fields.get? name with
  | none => .ok fields
  | some .null => .ok (fields.erase name)
  | some input => .ok ((fields.erase name).insert field input)

namespace Field

def integer (n : Int) : Field := plain.withDefault (.int n)

def words (s : String) : Field := plain.withDefault (.text s)

def decimal (x : Float) : Field := plain.withDefault (.float x)

def choice (code : Int) (choices : List (Int × String)) : Field := (integer code).oneOf choices

def choiceNamed (label : String) (choices : List (Int × String)) : Field :=
  (words label).oneOf choices

end Field

end MonitorExport
