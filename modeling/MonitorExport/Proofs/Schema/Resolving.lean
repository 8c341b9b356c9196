import Mathlib.Data.List.Forall2
import MonitorExport.Schema.Registry

/-!
# Resolved models

What the models of a registry take over from the declarations: each is resolved from one of them and comes
first in its lineage, its preparations are theirs, and its fields are merged from theirs, so that a field is
as the declarations are that give it.
-/

namespace MonitorExport

theorem bind_eq_ok {α β ε : Type} {r : Except ε α} {f : α → Except ε β} {b : β} (h : r >>= f = .ok b) :
    ∃ a, r = .ok a ∧ f a = .ok b := by
  cases r with
  | error err => cases h
  | ok a => exact ⟨a, rfl, h⟩

theorem exists_bind_ok {α β ε : Type} {r : Except ε α} {f : α → Except ε β} :
    (∃ b, r >>= f = .ok b) ↔ ∃ a, r = .ok a ∧ ∃ b, f a = .ok b := by
  constructor
  · rintro ⟨b, h⟩
    obtain ⟨a, ha, hb⟩ := bind_eq_ok h
    exact ⟨a, ha, b, hb⟩
  · rintro ⟨a, rfl, hb⟩
    exact hb

theorem ok_bind {α β ε : Type} (a : α) (f : α → Except ε β) : (Except.ok a >>= f) = f a := rfl

/-- A function that may fail gives what it gives for the items of a list one by one. -/
theorem forall₂_of_mapM_ok {α β ε : Type} {f : α → Except ε β} {as : List α} {bs : List β} (h : as.mapM f = .ok bs) :
    List.Forall₂ (fun a b => f a = .ok b) as bs := by
  induction as generalizing bs with
  | nil =>
      cases h
      exact .nil
  | cons a as ih =>
      rw [List.mapM_cons] at h
      obtain ⟨b, hf, h⟩ := bind_eq_ok h
      obtain ⟨rest, hrest, h⟩ := bind_eq_ok h
      cases h
      exact .cons hf (ih hrest)

theorem exists_of_forall₂ {α β : Type} {R : α → β → Prop} {l : List α} {l' : List β} (h : List.Forall₂ R l l') {b : β}
    (hb : b ∈ l') : ∃ a ∈ l, R a b := by
  induction h with
  | nil => cases hb
  | cons hr _ ih =>
      rcases List.mem_cons.mp hb with rfl | hb
      · exact ⟨_, List.mem_cons_self .., hr⟩
      · obtain ⟨a, ha, hr⟩ := ih hb
        exact ⟨a, List.mem_cons_of_mem _ ha, hr⟩

theorem mapM_ok_mem {α β ε : Type} {f : α → Except ε β} {as : List α} {bs : List β} (h : as.mapM f = .ok bs) :
    ∀ b ∈ bs, ∃ a ∈ as, f a = .ok b :=
  fun _ => exists_of_forall₂ (forall₂_of_mapM_ok h)

namespace Registry

variable {decls decls' : List ModelDecl} {decl : ModelDecl} {m : ModelSchema} {ms : List ModelSchema}
  {line : List Nat}

/-- Resolving gives a model for each declaration, along the lineage of its place. -/
theorem getElem?_resolveFrom {index : Nat} (h : resolveFrom decls index decls' = .ok ms) :
    ms.length = decls'.length ∧ ∀ i m, ms[i]? = some m → ∃ decl line, decls'[i]? = some decl ∧
      lineage decls (index + i) decl = .ok line ∧ resolveModel decls decl line = .ok m := by
  induction decls' generalizing index ms with
  | nil =>
      cases h
      simp
  | cons decl rest ih =>
      rw [resolveFrom] at h
      obtain ⟨line, hline, h⟩ := bind_eq_ok h
      obtain ⟨model, hm, h⟩ := bind_eq_ok h
      obtain ⟨models, hr, h⟩ := bind_eq_ok h
      cases h
      obtain ⟨hlen, hrest⟩ := ih hr
      refine ⟨congrArg Nat.succ hlen, fun i m hi => ?_⟩
      cases i with
      | zero =>
          cases hi
          exact ⟨decl, line, rfl, hline, hm⟩
      | succ i =>
          obtain ⟨d, l, hd, hl, hresolved⟩ := hrest i m hi
          exact ⟨d, l, hd, by rwa [Nat.add_assoc, Nat.add_comm 1] at hl, hresolved⟩

variable {r : Registry}

theorem resolveFrom_of_ofDecls (h : ofDecls decls = .ok r) : resolveFrom decls 0 decls = .ok r.models := by
  unfold ofDecls at h
  split at h
  · cases h
  · cases hr : resolveFrom decls 0 decls with
    | error err =>
        rw [hr] at h
        cases h
    | ok models =>
        rw [hr] at h
        cases h
        rfl

theorem length_models (h : ofDecls decls = .ok r) : r.models.length = decls.length :=
  (getElem?_resolveFrom (resolveFrom_of_ofDecls h)).1

/-- Every model of a registry is resolved from a declaration. -/
theorem mem_ofDecls (h : ofDecls decls = .ok r) :
    ∀ m ∈ r.models, ∃ decl line, resolveModel decls decl line = .ok m := by
  intro m hm
  obtain ⟨i, hi⟩ := List.getElem?_of_mem hm
  obtain ⟨decl, line, _, _, hresolved⟩ := (getElem?_resolveFrom (resolveFrom_of_ofDecls h)).2 i m hi
  exact ⟨decl, line, hresolved⟩

/-- The declarations along a lineage. -/
abbrev along (decls : List ModelDecl) (line : List Nat) : List ModelDecl := line.filterMap fun i => decls[i]?

theorem mem_of_along {d : ModelDecl} (h : d ∈ (along decls line).reverse) : d ∈ decls := by
  obtain ⟨i, _, hi⟩ := List.mem_filterMap.mp (List.mem_reverse.mp h)
  exact List.mem_of_getElem? hi

theorem resolveModel_eq (h : resolveModel decls decl line = .ok m) :
    m.preparations = (along decls line).reverse.filterMap (·.preparation) ∧
      (mergedFields (along decls line).reverse).mapM (fun entry => resolveField decls decl.name
        ((mergedFields (along decls line).reverse).map (·.1)) entry.1 entry.2) = .ok m.fields := by
  unfold resolveModel resolveTable at h
  obtain ⟨fields, hf, h⟩ := bind_eq_ok h
  cases h
  exact ⟨rfl, hf⟩

theorem resolveModel_lineage (h : resolveModel decls decl line = .ok m) : m.lineage = line := by
  unfold resolveModel resolveTable at h
  obtain ⟨_, _, h⟩ := bind_eq_ok h
  cases h
  rfl

/-- A model comes first in its lineage. -/
theorem mem_lineage (h : ofDecls decls = .ok r) {i : Nat} (hi : r.models[i]? = some m) : i ∈ m.lineage := by
  obtain ⟨decl, line, _, hline, hresolved⟩ := (getElem?_resolveFrom (resolveFrom_of_ofDecls h)).2 i m hi
  rw [resolveModel_lineage hresolved]
  unfold lineage at hline
  rw [Nat.zero_add] at hline
  cases ha : ancestors decls decl.name decls.length [i] decl with
  | error err =>
      rw [ha] at hline
      cases hline
  | ok above =>
      rw [ha] at hline
      cases hline
      exact List.mem_cons_self

/-- The preparations of a model are those of declarations. -/
theorem mem_preparations (h : resolveModel decls decl line = .ok m) {p : Preparation} (hp : p ∈ m.preparations) :
    ∃ d ∈ decls, d.preparation = some p := by
  rw [(resolveModel_eq h).1] at hp
  obtain ⟨d, hmem, hd⟩ := List.mem_filterMap.mp hp
  exact ⟨d, mem_of_along hmem, hd⟩

/-! ## Merged fields -/

variable {good : String → Field → Prop}

/-- Whether all fields of a table are good for their names. -/
abbrev AllFields (good : String → Field → Prop) (table : List (String × Field)) : Prop :=
  ∀ entry ∈ table, good entry.1 entry.2

/-- Whether a field stays good where it overrides another good one. -/
abbrev Overrides (good : String → Field → Prop) : Prop :=
  ∀ name field inherited, good name field → good name inherited → good name (field.overriding inherited)

theorem mergeField_all (hg : Overrides good) {table : List (String × Field)} {name : String} {field : Field}
    (h : AllFields good table) (hf : good name field) : AllFields good (mergeField table name field) := by
  induction table with
  | nil => simpa [AllFields, mergeField] using hf
  | cons entry rest ih =>
      obtain ⟨hentry, hrest⟩ := List.forall_mem_cons.mp h
      unfold mergeField
      split
      · next hn => exact List.forall_mem_cons.mpr ⟨hg _ _ _ (hn ▸ hf) hentry, hrest⟩
      · exact List.forall_mem_cons.mpr ⟨hentry, ih hrest⟩

theorem foldl_mergeField_all (hg : Overrides good) (entries : List (String × Field)) {table : List (String × Field)}
    (h : AllFields good table) (he : AllFields good entries) :
    AllFields good (entries.foldl (fun table field => mergeField table field.1 field.2) table) := by
  induction entries generalizing table with
  | nil => exact h
  | cons entry rest ih =>
      obtain ⟨hentry, hrest⟩ := List.forall_mem_cons.mp he
      exact ih (mergeField_all hg h hentry) hrest

theorem mergedFields_all (hg : Overrides good) {line : List ModelDecl} (h : ∀ d ∈ line, AllFields good d.fields) :
    AllFields good (mergedFields line) := by
  have hall : AllFields good (line.flatMap (·.fields)) := fun entry hentry => by
    obtain ⟨d, hd, hmem⟩ := List.mem_flatMap.mp hentry
    exact h d hd entry hmem
  exact fun entry hentry => foldl_mergeField_all hg _ (by simp [AllFields]) hall entry (List.mem_mergeSort.mp hentry)

/-! ## Resolved fields -/

/-- What a resolved field takes over from the merged one. -/
structure Resolves (decls : List ModelDecl) (name : String) (field : Field) (schema : FieldSchema) : Prop where
  name : schema.name = name
  kind : schema.kind = field.kind
  choices : schema.choices = field.choices
  validators : schema.validators = chain field
  default : ∀ v, schema.default? = some v → ∃ w, Validator.runChain (chain field) w = .ok v
  target : ∀ k, schema.target = some k → k < decls.length

theorem declIndex?_lt {name : String} {k : Nat} (h : declIndex? decls name = some k) : k < decls.length :=
  (List.findIdx?_eq_some_iff_getElem.mp h).1

theorem resolveTarget_lt {model name : String} {siblings : List String} {kind : FieldKind} {k : Nat}
    (h : resolveTarget decls model siblings name kind = .ok (some k)) : k < decls.length := by
  unfold resolveTarget at h
  split at h
  · split at h
    · next hi => cases h; exact declIndex?_lt hi
    · cases h
  · split at h
    · next hi => cases h; exact declIndex?_lt hi
    · cases h
  · split at h <;> cases h
  · cases h

theorem resolveDefault_checked {model name : String} {field : Field} {v : Value}
    (h : resolveDefault model name field = .ok (some v)) : ∃ w, Validator.runChain (chain field) w = .ok v := by
  unfold resolveDefault at h
  split at h
  · cases h
  · next w _ =>
    split at h
    · next hw => cases h; exact ⟨w, hw⟩
    · cases h

theorem resolveField_eq {model name : String} {siblings : List String} {field : Field} {schema : FieldSchema}
    (h : resolveField decls model siblings name field = .ok schema) : ∃ target default?,
      resolveTarget decls model siblings name field.kind = .ok target ∧
        resolveDefault model name field = .ok default? ∧ schema = ⟨name, field.position, field.kind, target, default?,
          field.choices, field.description, chain field⟩ := by
  unfold resolveField at h
  obtain ⟨target, ht, h⟩ := bind_eq_ok h
  obtain ⟨default?, hd, h⟩ := bind_eq_ok h
  cases h
  exact ⟨target, default?, ht, hd, rfl⟩

theorem resolveField_resolves {model name : String} {siblings : List String} {field : Field} {schema : FieldSchema}
    (h : resolveField decls model siblings name field = .ok schema) : Resolves decls name field schema := by
  obtain ⟨target, default?, ht, hd, rfl⟩ := resolveField_eq h
  have hdefault : ∀ v, default? = some v → ∃ w, Validator.runChain (chain field) w = .ok v :=
    fun v hv => resolveDefault_checked (hv ▸ hd)
  have htarget : ∀ k, target = some k → k < decls.length := fun k hk => resolveTarget_lt (hk ▸ ht)
  exact ⟨rfl, rfl, rfl, rfl, hdefault, htarget⟩

/-- The fields of a model are resolved from fields that are good if all declarations have such. -/
theorem mem_fields (hg : Overrides good) (h : resolveModel decls decl line = .ok m)
    (hd : ∀ d ∈ decls, AllFields good d.fields) :
    ∀ schema ∈ m.fields, ∃ name field, good name field ∧ Resolves decls name field schema := by
  intro schema hschema
  obtain ⟨entry, hentry, hresolved⟩ := mapM_ok_mem (resolveModel_eq h).2 schema hschema
  exact ⟨entry.1, entry.2, mergedFields_all hg (fun d hmem => hd d (mem_of_along hmem)) entry hentry,
    resolveField_resolves hresolved⟩

/-! ## Kinds of fields -/

/-- Whether all fields of a table have a kind that is good for their name. -/
abbrev AllKinds (good : String → FieldKind → Prop) (table : List (String × Field)) : Prop :=
  AllFields (fun name field => good name field.kind) table

/-- The fields of a model have kinds that are good for their names if all declarations give them such. -/
theorem resolveModel_kinds {good : String → FieldKind → Prop} (h : resolveModel decls decl line = .ok m)
    (hd : ∀ d ∈ decls, AllKinds good d.fields) : ∀ field ∈ m.fields, good field.name field.kind := by
  intro schema hschema
  obtain ⟨name, field, hgood, hresolved⟩ := mem_fields (fun _ _ _ hf _ => hf) h hd schema hschema
  rw [hresolved.name, hresolved.kind]
  exact hgood

end Registry

end MonitorExport
