import MonitorExport.Schema.Model
import MonitorExport.Text.Lowercase

/-!
Registries: the models that a list of declarations resolves to. Resolving follows each model to its
ancestors, merges their fields from the outermost inwards, and checks names and defaults.
-/

namespace MonitorExport

/-- Why declarations do not resolve. -/
inductive SchemaError where
  | duplicateModel (name : String)
  | unresolvedType (model field target : String)
  | unresolvedParent (model parent : String)
  | inheritanceCycle (model : String)
  | invalidDefault (model field : String) (reason : ValidationError)
  /-- An elastic field refers to a field that the model does not have. -/
  | unknownSibling (model field target : String)

/-- The sentence shown to people. -/
def SchemaError.message : SchemaError → String
  | .duplicateModel name => s!"model {name} is declared twice"
  | .unresolvedType model field target => s!"{model}.{field} points at undeclared model {target}"
  | .unresolvedParent model parent => s!"{model} extends undeclared model {parent}"
  | .inheritanceCycle model => s!"inheritance cycle through {model}"
  | .invalidDefault model field reason =>
    s!"default of {model}.{field} does not validate: {reason.message}"
  | .unknownSibling model field target =>
    s!"{model}.{field} refers to {target}, which is not a field of the same model"

/-- Resolved models, in the order of their declarations. -/
structure Registry where
  models : List ModelSchema

namespace Registry

instance : Inhabited Registry := ⟨⟨[]⟩⟩

def declIndex? (decls : List ModelDecl) (name : String) : Option Nat :=
  decls.findIdx? fun decl => decl.name = name

/-- The first name that was declared before. -/
def duplicate? (before : List String) : List ModelDecl → Option String
  | [] => none
  | decl :: rest =>
    if decl.name ∈ before then some decl.name else duplicate? (decl.name :: before) rest

/-- The ancestors of a declaration, the nearest first. `start` names the model whose lineage is sought,
and `seen` holds what was met before, so that there can be no more than `fuel` ancestors to come. -/
def ancestors (decls : List ModelDecl) (start : String) :
    Nat → List Nat → ModelDecl → Except SchemaError (List Nat)
  | fuel, seen, decl =>
    match decl.extends? with
    | none => .ok []
    | some parent =>
      match declIndex? decls parent with
      | none => .error (.unresolvedParent decl.name parent)
      | some i =>
        if i ∈ seen then .error (.inheritanceCycle start) else
        match fuel, decls[i]? with
        | fuel + 1, some next => (ancestors decls start fuel (i :: seen) next).map (i :: ·)
        | _, _ => .error (.inheritanceCycle start)

/-- The model at `index` and its ancestors, the nearest first. -/
def lineage (decls : List ModelDecl) (index : Nat) (decl : ModelDecl) :
    Except SchemaError (List Nat) :=
  (ancestors decls decl.name decls.length [index] decl).map (index :: ·)

/-- Adds a declaration to a table: it overrides the one of its name in place, or becomes the last. -/
def mergeField (table : List (String × Field)) (name : String) (field : Field) :
    List (String × Field) :=
  match table with
  | [] => [(name, field)]
  | (n, inherited) :: rest =>
    if n = name then (n, field.overriding inherited) :: rest
    else (n, inherited) :: mergeField rest name field

/-- The fields of declarations merged in order and sorted by position. -/
def mergedFields (line : List ModelDecl) : List (String × Field) :=
  let merged := (line.flatMap (·.fields)).foldl (fun table field => mergeField table field.1 field.2) []
  merged.mergeSort fun a b => a.2.position ≤ b.2.position

/-- The place of the model that a field holds, after the check that all names it mentions exist. -/
def resolveTarget (decls : List ModelDecl) (model : String) (siblings : List String) (name : String) :
    FieldKind → Except SchemaError (Option Nat)
  | .set target _ _ | .reference target _ =>
    match declIndex? decls target with
    | some i => .ok (some i)
    | none => .error (.unresolvedType model name target)
  | .elastic size items =>
    match [size, items].find? fun sibling => !siblings.contains sibling with
    | some sibling => .error (.unknownSibling model name sibling)
    | none => .ok none
  | _ => .ok none

/-- The validators of a field: those declared, then its choices if it has any. -/
def chain (field : Field) : List Validator :=
  if field.choices.isEmpty then field.validators
  else field.validators ++ [.choice field.choices]

/-- The default of a field as its validators leave it. -/
def resolveDefault (model name : String) (field : Field) : Except SchemaError (Option Value) :=
  match field.default? with
  | none => .ok none
  | some v =>
    match Validator.runChain (chain field) v with
    | .ok w => .ok (some w)
    | .error reason => .error (.invalidDefault model name reason)

/-- Resolves one field of a merged table. -/
def resolveField (decls : List ModelDecl) (model : String) (siblings : List String)
    (name : String) (field : Field) : Except SchemaError FieldSchema := do
  let target ← resolveTarget decls model siblings name field.kind
  let default? ← resolveDefault model name field
  return {
    name
    position := field.position
    kind := field.kind
    target
    default?
    choices := field.choices
    description := field.description
    validators := chain field
  }

/-- Resolves a model along its line of declarations, the model's own first, from its merged table. -/
def resolveTable (decls : List ModelDecl) (decl : ModelDecl) (lineage : List Nat)
    (table : List (String × Field)) : Except SchemaError ModelSchema := do
  let line := lineage.filterMap fun i => decls[i]?
  let siblings := table.map (·.1)
  let fields ← table.mapM fun entry => resolveField decls decl.name siblings entry.1 entry.2
  return {
    name := decl.name
    tag := (line.findSome? (·.tag)).getD (Text.lowercase decl.name)
    fields
    identity := (line.findSome? (·.identity)).getD []
    positional := line.findSome? (·.positional)
    reference := line.findSome? (·.reference)
    hostScope := (line.findSome? (·.hostScope)).getD false
    document := decl.document
    arrangement := line.findSome? (·.arrangement)
    preparations := line.reverse.filterMap (·.preparation)
    lineage
  }

/-- Resolves a model along its line of declarations, whose fields are merged from the outermost on. -/
def resolveModel (decls : List ModelDecl) (decl : ModelDecl) (lineage : List Nat) :
    Except SchemaError ModelSchema :=
  resolveTable decls decl lineage (mergedFields (lineage.filterMap fun i => decls[i]?).reverse)

/-- Resolves the declarations from `index` on. -/
def resolveFrom (decls : List ModelDecl) (index : Nat) :
    List ModelDecl → Except SchemaError (List ModelSchema)
  | [] => .ok []
  | decl :: rest => do
    let lineage ← lineage decls index decl
    let model ← resolveModel decls decl lineage
    let models ← resolveFrom decls (index + 1) rest
    return model :: models

/-- The registry of a list of declarations. -/
def ofDecls (decls : List ModelDecl) : Except SchemaError Registry :=
  match duplicate? [] decls with
  | some name => .error (.duplicateModel name)
  | none => (resolveFrom decls 0 decls).map Registry.mk

def index? (r : Registry) (name : String) : Option Nat :=
  r.models.findIdx? fun model => model.name = name

def size (r : Registry) : Nat :=
  r.models.length

end Registry

end MonitorExport
