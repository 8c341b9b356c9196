import MonitorExport.Proofs.Entries
import MonitorExport.Proofs.Store.Slots

/-!
# Entities and their models

An entity has a slot for each field of its model, of the kind that the field asks for. What a slot holds or
points at is there, and is of the model that the field names; a value in it is one that the field stores.
-/

namespace MonitorExport

namespace Store

/-- The model of the members or of the target of a field of a model. -/
def targetOf (s : Store) (m : ModelId) (index : Nat) : ModelId :=
  ⟨m.registry, ((s.schema m).fields[index]?.bind (·.target)).getD 0⟩

/-- Whether an entity is there and is of a model, or of a subtype of it. -/
def Admits (s : Store) (m : ModelId) (e : EntityId) : Prop := s.Has e ∧ (s.model e = m ∨ s.isA (s.model e) m)

/-- A later store with the same registries, where all entities are still of their models. -/
structure Extends (s t : Store) : Prop where
  registries : t.registries = s.registries
  has : ∀ {e}, s.Has e → t.Has e
  model : ∀ {e}, s.Has e → t.model e = s.model e

end Store

/-- Whether a field stores a value: it is its default, or what its validators make of some value. -/
def FieldSchema.Stores (field : FieldSchema) (v : Value) : Prop :=
  field.default? = some v ∨ ∃ w, Validator.runChain field.validators w = .ok v

/-- Whether a value in a slot is one that the field at its place stores. -/
def Slot.Valued (field? : Option FieldSchema) : Slot → Prop
  | .scalar (some v) => ∀ field, field? = some field → field.Stores v
  | _ => True

/-- Whether all that a slot holds or points at is of a model. The keys of a literal identity are distinct. -/
def Slot.Fits (s : Store) (target : ModelId) : Slot → Prop
  | .scalar _ => True
  | .members es => ∀ e ∈ es, s.Admits target e
  | .binding .unbound => True
  | .binding (.entity e) => s.Admits target e
  | .binding (.literal identity) => identity.keys.Nodup

/-- Whether the slots of an entity are those of its model. -/
structure Entity.Fits (s : Store) (x : Entity) : Prop where
  kinds : x.slots.map Slot.emptied = (s.schema x.model).fields.map fun field => (Store.freshSlot field).emptied
  fits : ∀ i, (x.slots.getD i (.scalar none)).Fits s (s.targetOf x.model i)
  valued : ∀ i, (x.slots.getD i (.scalar none)).Valued ((s.schema x.model).fields[i]?)

namespace Store

/-- Whether every entity has the slots of its model. -/
structure Typed (s : Store) : Prop where
  kinds : ∀ e, s.Has e →
    (s.entity e).slots.map Slot.emptied = (s.schemaOf e).fields.map fun field => (freshSlot field).emptied
  fits : ∀ e i, (s.slot e i).Fits s (s.target e i)
  valued : ∀ e i, (s.slot e i).Valued (s.field? e i)

variable {s t : Store} {c : CollectionId} {e x : EntityId} {i : Nat} {slot : Slot} {m : ModelId}

theorem Typed.length_slots (hs : s.Typed) (he : s.Has e) :
    (s.entity e).slots.length = (s.schemaOf e).fields.length := by
  simpa using congrArg List.length (hs.kinds e he)

/-! ## Later stores -/

theorem schema_congr (h : t.registries = s.registries) : t.schema = s.schema := by
  funext m
  simp only [schema, registry, h]

theorem isA_congr (h : t.registries = s.registries) : t.isA = s.isA := by
  funext a b
  rw [isA, isA, schema_congr h]

namespace Extends

theorem refl (s : Store) : s.Extends s := ⟨rfl, id, fun _ => rfl⟩

theorem trans {u : Store} (h : s.Extends t) (h' : t.Extends u) : s.Extends u :=
  ⟨h'.registries.trans h.registries, fun he => h'.has (h.has he), fun he => (h'.model (h.has he)).trans (h.model he)⟩

theorem setSlot : s.Extends (s.setSlot e i slot) := ⟨rfl, has_setSlot.mpr, fun _ => model_setSlot⟩

theorem setParent {p : Option CollectionId} : s.Extends (s.setParent e p) :=
  ⟨rfl, (has_setParent p).mpr, fun _ => model_setParent p⟩

theorem push {entity : Entity} : s.Extends (s.push entity) where
  registries := rfl
  has h := has_push h entity
  model h := congrArg Entity.model (entity_push_of_has h entity)

variable (h : s.Extends t)

include h

theorem schema : t.schema = s.schema := schema_congr h.registries

theorem targetOf (m : ModelId) (i : Nat) : t.targetOf m i = s.targetOf m i := by
  simp only [Store.targetOf, h.schema]

theorem target (he : s.Has e) (i : Nat) : t.target e i = s.target e i := by
  show t.targetOf (t.model e) i = s.targetOf (s.model e) i
  rw [h.model he, h.targetOf]

theorem field? (he : s.Has e) (i : Nat) : t.field? e i = s.field? e i := by
  simp only [Store.field?, schemaOf, h.model he, h.schema]

theorem admits (hm : s.Admits m e) : t.Admits m e := by
  obtain ⟨he, hm⟩ := hm
  refine ⟨h.has he, ?_⟩
  rw [h.model he]
  simpa only [isA, h.schema] using hm

theorem admits_target (hc : s.Has e) (hx : s.Admits (s.target e i) x) : t.Admits (t.target e i) x :=
  h.target hc i ▸ h.admits hx

theorem slot_fits (hf : slot.Fits s m) : slot.Fits t m := by
  cases slot with
  | scalar => trivial
  | members es => exact fun e he => h.admits (hf e he)
  | binding b =>
      cases b with
      | entity e => exact h.admits hf
      | unbound => trivial
      | literal => exact hf

end Extends

@[simp] theorem target_setParent (p : Option CollectionId) : (s.setParent e p).target x i = s.target x i := by
  show (s.setParent e p).targetOf _ i = s.targetOf _ i
  rw [model_setParent, Extends.setParent.targetOf]

@[simp] theorem target_setSlot {j : Nat} : (s.setSlot e j slot).target x i = s.target x i := by
  show (s.setSlot e j slot).targetOf _ i = s.targetOf _ i
  rw [model_setSlot, Extends.setSlot.targetOf]

@[simp] theorem field?_setParent (p : Option CollectionId) : (s.setParent e p).field? x i = s.field? x i := by
  simp only [field?, schemaOf, model_setParent, Extends.setParent.schema]

@[simp] theorem field?_setSlot {j : Nat} : (s.setSlot e j slot).field? x i = s.field? x i := by
  simp only [field?, schemaOf, model_setSlot, Extends.setSlot.schema]

/-! ## What the changes of a store keep -/

theorem slot_of_binding {b : Binding} (hb : s.binding e i = b) (hne : b ≠ .unbound) : s.slot e i = .binding b := by
  unfold Store.binding at hb
  cases hslot : s.slot e i with
  | binding bound => rw [hslot] at hb; rw [← hb]
  | scalar _ => rw [hslot] at hb; exact absurd hb.symm hne
  | members _ => rw [hslot] at hb; exact absurd hb.symm hne

theorem slot_fits_of_not_has (h : ¬ s.Has e) : (s.slot e i).Fits t m := by
  rw [slot_of_not_has h]
  trivial

theorem slot_valued_of_not_has (h : ¬ s.Has e) (field? : Option FieldSchema) : (s.slot e i).Valued field? := by
  rw [slot_of_not_has h]
  trivial

namespace Typed

theorem ofRegistries (rs : List Registry) : (Store.ofRegistries rs).Typed where
  kinds e he := by simp [Has, Store.ofRegistries] at he
  fits e i := slot_fits_of_not_has (by simp [Has, Store.ofRegistries])
  valued e i := slot_valued_of_not_has (by simp [Has, Store.ofRegistries]) _

theorem admits_of_mem (hs : s.Typed) (h : e ∈ s.members c) : s.Admits (s.target c.owner c.field) e := by
  have hf := hs.fits c.owner c.field
  obtain ⟨es, hslot⟩ := Slot.exists_members (IsCollection.of_mem h)
  rw [members_eq, hslot] at h
  rw [hslot] at hf
  exact hf e h

theorem admits_of_binding (hs : s.Typed) (h : s.binding e i = .entity x) : s.Admits (s.target e i) x := by
  have hf := hs.fits e i
  rw [slot_of_binding h nofun] at hf
  exact hf

theorem nodup_of_binding (hs : s.Typed) {identity : Identity} (h : s.binding e i = .literal identity) :
    identity.keys.Nodup := by
  have hf := hs.fits e i
  rw [slot_of_binding h nofun] at hf
  exact hf

/-- A slot is of the kind that the field at its place asks for. -/
theorem emptied_eq (hs : s.Typed) (he : s.Has e) (i : Nat) :
    (s.slot e i).emptied = ((s.field? e i).map fun field => (freshSlot field).emptied).getD (.scalar none) := by
  have hk := congrArg (fun slots : List Slot => slots[i]?) (hs.kinds e he)
  simp only [List.getElem?_map] at hk
  rw [Store.slot, List.getD_eq_getElem?_getD, Store.field?, ← hk]
  cases (s.entity e).slots[i]? <;> rfl

theorem emptied_of_field (hs : s.Typed) (he : s.Has e) {field : FieldSchema} (hf : s.field? e i = some field) :
    (s.slot e i).emptied = (freshSlot field).emptied := by
  rw [hs.emptied_eq he, hf]
  rfl

/-- The field of a slot that is not empty. -/
theorem field_of_slot (hs : s.Typed) (h : s.slot e i ≠ .scalar none) : ∃ field, s.field? e i = some field := by
  have hlt : i < (s.schemaOf e).fields.length := by
    have hlen := congrArg List.length (hs.kinds e (has_of_slot_ne h))
    rw [List.length_map, List.length_map] at hlen
    exact hlen ▸ lt_of_slot_ne h
  exact ⟨_, List.getElem?_eq_getElem hlt⟩

/-- A slot for entities is that of a field that names their model. -/
theorem target_of_slot (hs : s.Typed) (h : (s.slot e i).emptied ≠ .scalar none) :
    ∃ field k, s.field? e i = some field ∧ field.target = some k := by
  have hne : s.slot e i ≠ .scalar none := fun hslot => h (by rw [hslot]; rfl)
  obtain ⟨field, hfield⟩ := hs.field_of_slot hne
  rw [hs.emptied_of_field (has_of_slot_ne hne) hfield, freshSlot] at h
  split at h
  · next k _ ht => exact ⟨field, k, hfield, ht⟩
  · next k _ ht => exact ⟨field, k, hfield, ht⟩
  · exact absurd rfl h

theorem push (hs : s.Typed) {entity : Entity} (hf : entity.Fits s) : (s.push entity).Typed where
  kinds x hx := by
    rw [schemaOf, Store.model, entity_push]
    split
    · exact hf.kinds
    · next hn =>
      have hold : s.Has x := by
        simp only [Has, size_push] at *
        omega
      exact hs.kinds x hold
  fits x i := by
    have hslot : ((s.push entity).slot x i).Fits s ((s.push entity).target x i) := by
      rw [Store.slot, Store.target, Store.field?, Store.schemaOf, Store.model, entity_push]
      split
      · exact hf.fits i
      · exact hs.fits x i
    exact Extends.push.slot_fits hslot
  valued x i := by
    rw [Store.slot, Store.field?, schemaOf, Store.model, entity_push]
    split
    · exact hf.valued i
    · exact hs.valued x i

theorem setParent (hs : s.Typed) (p : Option CollectionId) : (s.setParent e p).Typed where
  kinds x hx := by
    rw [slots_setParent, schemaOf, model_setParent]
    exact hs.kinds x ((has_setParent p).mp hx)
  fits x i := by
    rw [slot_setParent, target_setParent]
    exact Extends.setParent.slot_fits (hs.fits x i)
  valued x i := by
    rw [slot_setParent, field?_setParent]
    exact hs.valued x i

/-- A slot replaced by one of its kind changes no kind. -/
theorem kinds_setSlot (he : slot.emptied = (s.slot e i).emptied) (x : EntityId) :
    ((s.setSlot e i slot).entity x).slots.map Slot.emptied = (s.entity x).slots.map Slot.emptied := by
  by_cases hx : x = e ∧ s.Has e
  · have hslots : ((s.setSlot e i slot).entity x).slots = (s.entity x).slots.set i slot := by
      rw [Store.setSlot, entity_modify, if_pos hx, hx.1]
    rw [hslots]
    refine List.ext_getElem? fun j => ?_
    rw [List.getElem?_map, List.getElem?_map, List.getElem?_set]
    split
    · next hij =>
      subst hij
      rw [Store.slot, List.getD_eq_getElem?_getD, ← hx.1] at he
      split
      · next hlt => simp [he, hlt]
      · next hlt => simp [List.getElem?_eq_none (Nat.le_of_not_lt hlt)]
    · rfl
  · rw [Store.setSlot, entity_modify, if_neg hx]

theorem setSlot (hs : s.Typed) (he : slot.emptied = (s.slot e i).emptied) (hf : slot.Fits s (s.target e i))
    (hv : slot.Valued (s.field? e i)) : (s.setSlot e i slot).Typed where
  kinds x hx := by
    rw [kinds_setSlot he, schemaOf, model_setSlot]
    exact hs.kinds x (has_setSlot.mp hx)
  fits x j := by
    have hslot : ((s.setSlot e i slot).slot x j).Fits s (s.target x j) := by
      rw [slot_setSlot]
      split
      · next hx => rw [hx.1, hx.2.1]; exact hf
      · exact hs.fits x j
    rw [target_setSlot]
    exact Extends.setSlot.slot_fits hslot
  valued x j := by
    rw [slot_setSlot, field?_setSlot]
    split
    · next hx => rw [hx.1, hx.2.1]; exact hv
    · exact hs.valued x j

/-- Members of a collection can be replaced by others of its model. -/
theorem setMembers (hs : s.Typed) (hc : s.IsCollection c) {es : List EntityId}
    (h : ∀ e ∈ es, s.Admits (s.target c.owner c.field) e) : (s.setSlot c.owner c.field (.members es)).Typed :=
  hs.setSlot (Eq.symm hc) h trivial

end Typed

/-! ## Entities of one model -/

theorem target_congr (hr : t.registries = s.registries) (hm : t.model x = s.model e) (i : Nat) :
    t.target x i = s.target e i := by
  show t.targetOf (t.model x) i = s.targetOf (s.model e) i
  simp only [targetOf, schema_congr hr, hm]

theorem Admits.congr (h : s.Admits m e) (hr : t.registries = s.registries) (hx : t.Has x)
    (hm : t.model x = s.model e) : t.Admits m x := by
  refine ⟨hx, ?_⟩
  simpa only [isA, schema_congr hr, hm] using h.2

/-- The slots of two entities of one model are of the same kinds. -/
theorem emptied_congr (hs : s.Typed) (ht : t.Typed) (hr : t.registries = s.registries) (he : s.Has e) (hx : t.Has x)
    (hm : t.model x = s.model e) : (t.slot x i).emptied = (s.slot e i).emptied := by
  have hslots : (t.entity x).slots.map Slot.emptied = (s.entity e).slots.map Slot.emptied := by
    rw [hs.kinds e he, ht.kinds x hx, schemaOf, schemaOf, hm, schema_congr hr]
  have hi := congrArg (fun slots : List Slot => slots[i]?) hslots
  simp only [List.getElem?_map] at hi
  simp only [slot, List.getD_eq_getElem?_getD]
  cases h : (t.entity x).slots[i]? <;> cases h' : (s.entity e).slots[i]? <;> simp_all

end Store

end MonitorExport
