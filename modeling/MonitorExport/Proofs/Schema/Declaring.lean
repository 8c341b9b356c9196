import MonitorExport.Proofs.Schema.Resolving

/-!
# Declared fields

What the declarations guarantee of the fields of a registry, along any line of overrides: a default has
passed the validators, the choices are the last of these, and a number with a lower bound is checked for it.
-/

namespace MonitorExport

namespace Field

variable {f : Field}

/-- The fields that can be declared: a kind, for a number with a lower bound together with the check of it,
and what is added. -/
inductive Declarable : Field → Prop
  | ofKind {kind : FieldKind} (h : ∀ minimum, kind ≠ .fixedSize minimum) : Declarable (ofKind kind)
  | fixedSize (minimum : Int) : Declarable (fixedSize minimum)
  | withDefault {f : Field} (h : Declarable f) (v : Value) : Declarable (f.withDefault v)
  | withChoices {f : Field} (h : Declarable f) (choices : List Choice) : Declarable (f.withChoices choices)
  | withValidator {f : Field} (h : Declarable f) (v : Validator) : Declarable (f.withValidator v)
  | describedAs {f : Field} (h : Declarable f) (description : String) : Declarable (f.describedAs description)
  | allowingEmpty {f : Field} (h : Declarable f) : Declarable f.allowingEmpty
  | tagged {f : Field} (h : Declarable f) (tag : String) : Declarable (f.tagged tag)
  | appendingHost {f : Field} (h : Declarable f) : Declarable f.appendingHost
  | positioned {f : Field} (h : Declarable f) (position : Nat) : Declarable { f with position }

attribute [simp] Declarable.fixedSize Declarable.withDefault Declarable.withChoices Declarable.withValidator
  Declarable.describedAs Declarable.allowingEmpty Declarable.tagged Declarable.appendingHost Declarable.positioned

@[simp] theorem declarable_plain : plain.Declarable := .ofKind (by simp)

@[simp] theorem declarable_elastic (size items : String) : (elastic size items).Declarable := .ofKind (by simp)

@[simp] theorem declarable_color : color.Declarable := .ofKind (by simp)

@[simp] theorem declarable_set (model : String) : (set model).Declarable := .ofKind (by simp)

@[simp] theorem declarable_reference (model : String) : (reference model).Declarable := .ofKind (by simp)

@[simp] theorem Declarable.oneOf (h : Declarable f) (choices : List (Int × String)) : (f.oneOf choices).Declarable :=
  h.withChoices _

/-- Whether a number with a lower bound is checked for it. -/
def Bounded (f : Field) : Prop := ∀ minimum, f.kind = .fixedSize minimum → .min minimum ∈ f.validators

theorem Declarable.bounded (h : Declarable f) : f.Bounded := by
  induction h with
  | ofKind h => exact fun minimum hk => absurd hk (h minimum)
  | fixedSize m =>
      intro minimum hk
      cases hk
      exact List.mem_singleton_self _
  | withDefault _ _ ih => exact ih
  | withChoices _ _ ih => exact ih
  | withValidator _ _ ih => exact fun minimum hk => List.mem_append_left _ (ih minimum hk)
  | describedAs _ _ ih => exact ih
  | allowingEmpty _ ih =>
      unfold Field.allowingEmpty
      split
      · exact nofun
      · exact ih
  | tagged _ _ ih =>
      unfold Field.tagged
      split
      · exact nofun
      · exact ih
  | appendingHost _ ih =>
      unfold Field.appendingHost
      split
      · exact nofun
      · exact ih
  | positioned _ _ ih => exact ih

/-- A number that is checked for its bound declares a validator, so it takes over none that it overrides. -/
theorem Bounded.overriding (h : f.Bounded) (inherited : Field) : (f.overriding inherited).Bounded := by
  intro minimum hk
  have hmem : .min minimum ∈ f.validators := h minimum hk
  have hne : ¬ f.validators.isEmpty := fun he => by
    rw [List.isEmpty_iff.mp he] at hmem
    cases hmem
  simp only [Field.overriding, hne, and_false, Bool.false_eq_true, ↓reduceIte]
  exact hmem

end Field

/-- Whether the validators of a resolved field let nothing pass that they should not: a default has passed
them, the choices are the last of them, and a number with a lower bound is checked for it. -/
structure FieldSchema.Sound (schema : FieldSchema) : Prop where
  default : ∀ v, schema.default? = some v → ∃ w, Validator.runChain schema.validators w = .ok v
  choices : schema.choices ≠ [] → ∃ before, schema.validators = before ++ [.choice schema.choices]
  bound : ∀ minimum, schema.kind = .fixedSize minimum → .min minimum ∈ schema.validators

namespace Registry

variable {decls : List ModelDecl} {r : Registry} {m : ModelSchema} {schema : FieldSchema}

theorem mem_chain {field : Field} {v : Validator} (h : v ∈ field.validators) : v ∈ chain field := by
  unfold chain
  split
  · exact h
  · exact List.mem_append_left _ h

theorem Resolves.sound {name : String} {field : Field} (h : Resolves decls name field schema) (hb : field.Bounded) :
    schema.Sound where
  default := by rw [h.validators]; exact h.default
  choices hne := by
    rw [h.choices] at hne ⊢
    rw [h.validators, chain, if_neg (by simpa using hne)]
    exact ⟨_, rfl⟩
  bound minimum hk := by
    rw [h.validators]
    exact mem_chain (hb minimum (h.kind ▸ hk))

/-- Fields that can be declared can be given positions. -/
theorem numberFields_declarable {fields : List (String × Field)} (h : ∀ entry ∈ fields, entry.2.Declarable)
    (start : Nat) : ∀ entry ∈ ModelDecl.numberFields start fields, entry.2.Declarable := by
  induction fields generalizing start with
  | nil => simp [ModelDecl.numberFields]
  | cons entry rest ih =>
      obtain ⟨hentry, hrest⟩ := List.forall_mem_cons.mp h
      exact List.forall_mem_cons.mpr ⟨hentry.positioned start, ih hrest _⟩

theorem number_declarable (h : ∀ d ∈ decls, ∀ entry ∈ d.fields, entry.2.Declarable) :
    ∀ d ∈ ModelDecl.number decls, ∀ entry ∈ d.fields, entry.2.Declarable := by
  unfold ModelDecl.number
  generalize 0 = start
  induction decls generalizing start with
  | nil => simp [ModelDecl.numberFrom]
  | cons decl rest ih =>
      obtain ⟨hdecl, hrest⟩ := List.forall_mem_cons.mp h
      exact List.forall_mem_cons.mpr ⟨numberFields_declarable hdecl start, ih hrest _⟩

/-- Whether a registry is what some declarations resolve to. -/
def Declared (r : Registry) : Prop :=
  ∃ decls, (∀ d ∈ decls, ∀ entry ∈ d.fields, entry.2.Declarable) ∧ ofDecls decls = .ok r

namespace Declared

theorem resolves (h : r.Declared) (hm : m ∈ r.models) (hf : schema ∈ m.fields) :
    ∃ decls name field, ofDecls decls = .ok r ∧ field.Bounded ∧ Resolves decls name field schema := by
  obtain ⟨decls, hd, hr⟩ := h
  obtain ⟨decl, line, hresolved⟩ := mem_ofDecls hr m hm
  have hgood : ∀ d ∈ decls, AllFields (fun _ field => field.Bounded) d.fields :=
    fun d hmem entry hentry => (hd d hmem entry hentry).bounded
  obtain ⟨name, field, hb, hfield⟩ :=
    mem_fields (fun _ _ inherited hb _ => hb.overriding inherited) hresolved hgood _ hf
  exact ⟨decls, name, field, hr, hb, hfield⟩

theorem sound (h : r.Declared) (hm : m ∈ r.models) (hf : schema ∈ m.fields) : schema.Sound := by
  obtain ⟨_, _, _, _, hb, hfield⟩ := h.resolves hm hf
  exact hfield.sound hb

theorem lineage (h : r.Declared) {i : Nat} (hi : r.models[i]? = some m) : i ∈ m.lineage := by
  obtain ⟨_, _, hr⟩ := h
  exact mem_lineage hr hi

/-- The model that a field holds entities of is there. -/
theorem target (h : r.Declared) (hm : m ∈ r.models) (hf : schema ∈ m.fields) {k : Nat}
    (ht : schema.target = some k) : k < r.models.length := by
  obtain ⟨_, _, _, hr, _, hfield⟩ := h.resolves hm hf
  exact length_models hr ▸ hfield.target k ht

end Declared

end Registry

end MonitorExport
