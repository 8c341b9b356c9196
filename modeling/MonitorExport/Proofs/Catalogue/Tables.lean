import MonitorExport.Catalogue.Standard
import MonitorExport.Export.Document
import MonitorExport.Proofs.Schema.Declaring
import MonitorExport.Proofs.Schema.InOrder

/-!
# The tables of the standard models

What the tables of the standard models say about the places of groups, applications, graphs and triggers. The tables
are merged in order, so that they can be computed.
-/

namespace MonitorExport.Catalogue

abbrev numbered : List ModelDecl := ModelDecl.number declarations

theorem numbered_inOrder : ∀ p ∈ numbered.zipIdx, ∀ line ∈ (Registry.lineage numbered p.2 p.1).toOption,
    Registry.InOrder (Registry.mergedInOrder (Registry.along numbered line).reverse) := by
  decide +kernel

/-- The standard models, resolved without sorting. -/
def models : List ModelSchema := (Registry.resolveInOrder numbered 0 numbered).toOption.getD []

theorem standard_eq : standard = .ok ⟨models⟩ :=
  Registry.ofDecls_eq (by decide +kernel) numbered_inOrder (by decide +kernel)

theorem registry_eq : registry = ⟨models⟩ := by
  rw [registry, standard_eq]
  rfl

theorem registry_models : registry.models = models := by rw [registry_eq]

theorem declarations_declarable : ∀ d ∈ declarations, ∀ entry ∈ d.fields, entry.2.Declarable := by
  have hdefault (v : Value) : (Field.plain.withDefault v).Declarable := Field.declarable_plain.withDefault v
  have hchoice (code : Int) (choices : List (Int × String)) : (Field.choice code choices).Declarable :=
    (hdefault _).oneOf choices
  have hnamed (label : String) (choices : List (Int × String)) : (Field.choiceNamed label choices).Declarable :=
    (hdefault _).oneOf choices
  simp only [declarations, config, trigger, application, group, template, host, interface, namedText, valueMap, item,
    aggregateItem, graph, graphItem, screen, screenItem, discoveryRule, List.forall_mem_cons]
  simp [Field.integer, Field.words, Field.decimal, hchoice, hnamed]

/-- The standard models are resolved from fields as they can be declared. -/
theorem registry_declared : registry.Declared :=
  ⟨numbered, Registry.number_declarable declarations_declarable, registry_eq ▸ standard_eq⟩

/-! ## Members -/

/-- Whether a field is a set that takes entities of a model of the catalogue. -/
def takes (field : FieldSchema) (p : ModelSchema × Nat) : Bool :=
  match field.kind, field.target with
  | .set _ _ _, some k => p.2 = k || p.1.lineage.contains k
  | _, _ => false

def isSet (field : FieldSchema) : Bool :=
  match field.kind, field.target with
  | .set _ _ _, some _ => true
  | _, _ => false

/-- The tag of the members of a model in a field. -/
def memberTag (field : FieldSchema) (m : ModelSchema) : String :=
  match field.kind with
  | .set _ _ tag => tag.getD m.tag
  | _ => m.tag

/-- A model whose entities are gathered by their names, and the tags under which they stand. -/
structure RosterModel where
  container : String
  member : String
  model : String

def rosterModels : List RosterModel :=
  [⟨"groups", "group", "Group"⟩, ⟨"applications", "application", "Application"⟩]

/-- The models below which there are no groups and no applications. -/
def plainModels : List String := ["Graph", "GraphItem", "Screen", "ScreenItem", "Trigger"]

-- computed at once, since the models are resolved anew for each computation
/-- The fields of a model have names of their own, and targets among the models. Only plain models are arranged, groups
and applications have a name alone, by which they are identified, and a document has sets alone. -/
theorem fields_table : ∀ m ∈ models, (m.fields.map (·.name)).Nodup ∧
    (∀ field ∈ m.fields, ∀ k ∈ field.target, k < models.length) ∧ (m.arrangement ≠ none → m.name ∈ plainModels) ∧
    (∀ r ∈ rosterModels, m.name = r.model → m.fields.map (fun field => (field.name, field.kind)) = [("name", .scalar)] ∧
      m.arrangement = none ∧ m.identity = ["name"]) ∧
    (m.name = "Config" → m.fields.map (·.name) = ["templates", "graphs", "hosts", "screens"] ∧ m.document = true ∧
      m.arrangement = none ∧ ∀ field ∈ m.fields, isSet field = true) := by
  decide +kernel

/-- Groups and applications stand in fields of that name and nowhere else; what is below plain models, in graphs, in
screens or in triggers is plain; and a document is in nothing. -/
theorem takes_table : ∀ m ∈ models, ∀ field ∈ m.fields, ∀ p ∈ models.zipIdx, takes field p →
    (∀ r ∈ rosterModels, (field.name = r.container ↔ p.1.name = r.model) ∧ memberTag field p.1 ≠ r.container ∧
      (p.1.name = r.model → memberTag field p.1 = r.member)) ∧
    (m.name ∈ plainModels ∨ field.name ∈ ["graphs", "screens", "triggers"] → p.1.name ∈ plainModels) ∧
    p.1.name ≠ "Config" ∧ (m.name = "Config" → ∀ c ∈ Node.scopeContainers, field.name = c.1 →
      memberTag field p.1 = c.2 ∧ p.1.arrangement = none) := by
  decide +kernel

/-- Groups and applications are models of their own, without subtypes. -/
theorem roster_lineage : ∀ r ∈ rosterModels, ∃ k, Registry.index? ⟨models⟩ r.model = some k ∧
    ∀ p ∈ models.zipIdx, (p.1.lineage.contains k = true ↔ p.1.name = r.model) ∧ (p.1.name = r.model → p.2 = k) := by
  have hlineage : ∀ r ∈ rosterModels, (Registry.index? ⟨models⟩ r.model).isSome = true ∧
      ∀ k ∈ Registry.index? ⟨models⟩ r.model, ∀ p ∈ models.zipIdx,
        (p.1.lineage.contains k = true ↔ p.1.name = r.model) ∧ (p.1.name = r.model → p.2 = k) := by
    decide +kernel
  intro r hr
  obtain ⟨hfound, hk⟩ := hlineage r hr
  obtain ⟨k, hindex⟩ := Option.isSome_iff_exists.mp hfound
  exact ⟨k, hindex, hk k hindex⟩

end MonitorExport.Catalogue
